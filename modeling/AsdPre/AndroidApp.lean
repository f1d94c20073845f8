import AsdPre.CommandNumbers

/-! The Android client. It sends one line and waits for one line; an answer that it
cannot read raises an exception and is asked for once more on a new connection.
Texts are the ASCII bytes on the wire. -/
namespace AsdPre.AndroidApp

open ByteMemory Firmware CommandServer CommandStream CommandNumbers Tokens Decimal

/-- The default delimiters of `StringTokenizer`. -/
def delimiters : List Byte := [0x20, 0x09, 0x0a, 0x0d, 0x0c]

def isDelimiter (c : Byte) : Bool := delimiters.contains c

def println (message : List Byte) : List Byte := message ++ [0x0a#8]

/-- The line that has arrived, without what ends it. -/
def readLine (stream : List Byte) : List Byte :=
  stream.takeWhile fun c => c ≠ 0x0a#8 && c ≠ 0x0d#8

/-- `Integer.parseInt`, without a result where it throws. -/
def parseInt (s : List Byte) : Option Int :=
  let negative := s.head? = some 0x2d
  let digits := if negative ∨ s.head? = some 0x2b then s.drop 1 else s
  if digits = [] ∨ ¬ ∀ c ∈ digits, IsDigit c then none
  else
    let magnitude : Int := value 0 digits
    let n := if negative then -magnitude else magnitude
    if -2 ^ 31 ≤ n ∧ n < 2 ^ 31 then some n else none

/-- What `sendMessage` makes of an answer: its second token as a number, or 0. -/
def answerValue (answer : List Byte) : Option Int :=
  match tokenPair isDelimiter answer with
  | none => none
  | some (_, none) => some 0
  | some (_, some text) => parseInt text

/-- One message in one segment, and its answer; without a result if the server stops. -/
def exchange (d : Device) (message : List Byte) : Option (Device × Option Int) :=
  (serverRecv d (println message)).map fun (d', served) => (d', answerValue (readLine served.reply))

def attempt (message : List Byte) (d : Device) : Nat → Option (Device × Option Int)
  | 0 => exchange d message
  | retries + 1 =>
    match exchange d message with
    | some (d', none) => attempt message d' retries
    | result => result

/-- `sendMessage`; a second failure in a row is thrown to the caller. -/
def sendMessage (d : Device) (failCounter : Nat) (message : List Byte) : Option (Device × Option Int) :=
  attempt message d (1 - failCounter)

/-- An answer that can be read needs no second attempt. -/
theorem sendMessage_of_exchange {d d' : Device} {message : List Byte} {x : Int}
    (exchanged : exchange d message = some (d', some x)) (failCounter : Nat) :
    sendMessage d failCounter message = some (d', some x) := by
  rw [sendMessage]
  cases 1 - failCounter <;> simp [attempt, exchanged]

section Answers

theorem parseInt_decimal (n : Int) (low : -2 ^ 31 ≤ n) (high : n < 2 ^ 31) :
    parseInt (decimal n) = some n := by
  have all : ∀ c ∈ digits n.natAbs, IsDigit c := fun c member => isDigit_of_mem member
  have nonempty := digits_ne_nil n.natAbs
  have read := value_digits n.natAbs
  have range : -2147483648 ≤ n ∧ n < 2147483648 := ⟨low, high⟩
  by_cases negative : n < 0
  · have text : decimal n = 0x2d#8 :: digits n.natAbs := by simp [decimal_eq, negative]
    have magnitude : -|n| = n := by rw [abs_of_neg negative, neg_neg]
    simp only [parseInt]
    simp [text, nonempty, read, magnitude, range]
    exact all
  · have text : decimal n = digits n.natAbs := by simp [decimal_eq, negative]
    have magnitude : |n| = n := abs_of_nonneg (by omega)
    have unsigned := head_unsigned n.natAbs
    simp only [parseInt]
    simp [text, nonempty, read, magnitude, range, unsigned]
    exact all

theorem readLine_println {s : List Byte} (oneLine : ∀ c ∈ s, c ≠ 0x0a#8 ∧ c ≠ 0x0d#8) :
    readLine (println s) = s := by
  have inside : ∀ c ∈ s, (decide (c ≠ 0x0a#8) && decide (c ≠ 0x0d#8)) = true := by
    intro c member
    simpa using oneLine c member
  rw [readLine, println, List.takeWhile_append_of_pos inside]
  simp

theorem not_newline {c : Byte} (solid : isDelimiter c = false) : c ≠ 0x0a#8 ∧ c ≠ 0x0d#8 := by
  constructor <;> rintro rfl <;> simp [isDelimiter, delimiters] at solid

/-- An answer of a name and a number gives the number. -/
theorem answerValue_number (name : String) (n : Int)
    (solid : ∀ c ∈ ascii name, isDelimiter c = false) (nonempty : ascii name ≠ [])
    (low : -2 ^ 31 ≤ n) (high : n < 2 ^ 31) : answerValue (readLine (number name n)) = some n := by
  have solidNumber : ∀ c ∈ decimal n, isDelimiter c = false := by
    intro c member
    have range := decimal_avoids member
    simp [isDelimiter, delimiters, ← BitVec.toNat_inj]
    omega
  have text : number name n = println (ascii name ++ 0x20#8 :: decimal n) := by
    simp [number, println]
  have line : readLine (number name n) = ascii name ++ 0x20#8 :: decimal n := by
    rw [text]
    apply readLine_println
    intro c member
    rcases List.mem_append.mp member with inName | inNumber
    · exact not_newline (solid c inName)
    · rcases List.mem_cons.mp inNumber with rfl | inNumber
      · decide
      · exact not_newline (solidNumber c inNumber)
  rw [line, answerValue,
    tokenPair_words solid nonempty solidNumber (decimal_ne_nil n) (by decide)]
  exact parseInt_decimal n low high

end Answers

section Exchanges

variable {d d' : Device} {n : Int} (verb : Verb)

/-- A question is answered with a number and changes nothing. -/
theorem exchange_get (name : String) (answered : execute d none verb = some (d, number name n))
    (solid : ∀ c ∈ ascii name, isDelimiter c = false) (nonempty : ascii name ≠ [])
    (low : -2 ^ 31 ≤ n) (high : n < 2 ^ 31) : exchange d verb.name = some (d, some n) := by
  have received := serverRecv_plain d verb
  rw [answered] at received
  have sent : println verb.name = plainLine verb := rfl
  simp [exchange, sent, received, answerValue_number name n solid nonempty low high]

/-- A command with a number, written with the blank that ends its name. -/
theorem exchange_set {command : List Byte} (text : command = verb.name ++ [0x20#8])
    (done : execute d (some (decimal n)) verb = some (d', okReply)) :
    exchange d (command ++ decimal n) = some (d', some 0) := by
  have received := serverRecv_number d verb n
  rw [done] at received
  have sent : println (command ++ decimal n) = numberLine verb n := by
    simp [println, numberLine, text]
  have zero : answerValue (readLine okReply) = some 0 := by decide
  simp [exchange, sent, received, zero]

theorem exchange_getVol (d : Device) :
    exchange d (ascii "GET_VOL") = some (d, some d.volume.toInt) := by
  have low := BitVec.le_toInt d.volume
  have high := BitVec.toInt_lt (x := d.volume)
  exact exchange_get .getVol "VOL" rfl (by simp [ascii, isDelimiter, delimiters]) (by simp [ascii])
    (by omega) (by omega)

theorem exchange_getSource (low : -2 ^ 31 ≤ d.source) (high : d.source < 2 ^ 31) :
    exchange d (ascii "GET_SOURCE") = some (d, some d.source) :=
  exchange_get .getSource "SOURCE" rfl (by simp [ascii, isDelimiter, delimiters]) (by simp [ascii]) low high

theorem exchange_getGain (low : -2 ^ 31 ≤ d.gain) (high : d.gain < 2 ^ 31) :
    exchange d (ascii "GET_GAIN") = some (d, some d.gain) :=
  exchange_get .getGain "GAIN" rfl (by simp [ascii, isDelimiter, delimiters]) (by simp [ascii]) low high

theorem exchange_setVol (d : Device) (n : Int) :
    exchange d (ascii "SET_VOL " ++ decimal n) =
      some (setVol d ((strtol (decimal n)).setWidth 16), some 0) := by
  have done : execute d (some (decimal n)) .setVol =
      some (setVol d ((strtol (decimal n)).setWidth 16), okReply) := rfl
  exact exchange_set .setVol (by decide) done

end Exchanges

/-- The commands that only ask. -/
def questions : List Verb :=
  [.getVol, .getVolMax, .getVolMin, .getSource, .getSources, .getGain, .getMaxGain, .getMute]

theorem question_unchanged (d : Device) (verb : Verb) (question : verb ∈ questions)
    (payload : List Byte) (arg : Option (List Byte))
    (tokens : tokenPair isSep (recText payload) = some (verb.name, arg)) :
    ∃ served, serverRecv d payload = some (d, served) := by
  have answered : ∃ reply, execute d arg verb = some (d, reply) := by
    simp only [questions, List.mem_cons, List.not_mem_nil, or_false] at question
    rcases question with rfl | rfl | rfl | rfl | rfl | rfl | rfl | rfl <;> exact ⟨_, rfl⟩
  obtain ⟨reply, executed⟩ := answered
  exact ⟨_, by simp [serverRecv, tokens, ofToken_name, executed]; rfl⟩

/-- A setting whose command took effect is read back as it was sent. -/
theorem set_then_get {d d' : Device} {n : Int} {set get : List Byte} (reading : Device → Int)
    (done : exchange d set = some (d', some 0))
    (asked : exchange d' get = some (d', some (reading d'))) (value : reading d' = n)
    (failCounter : Nat) : ∃ d', sendMessage d failCounter set = some (d', some 0) ∧
      reading d' = n ∧ sendMessage d' 0 get = some (d', some n) := by
  refine ⟨d', sendMessage_of_exchange done failCounter, value, ?_⟩
  rw [value] at asked
  exact sendMessage_of_exchange asked 0

theorem volume_agrees (d : Device) (failCounter : Nat) (n : Int) (low : -2 ^ 15 ≤ n) (high : n < 2 ^ 15) :
    ∃ d', sendMessage d failCounter (ascii "SET_VOL " ++ decimal n) = some (d', some 0) ∧
      d'.volume.toInt = n ∧ sendMessage d' 0 (ascii "GET_VOL") = some (d', some n) := by
  have volume : (setVol d ((strtol (decimal n)).setWidth 16)).volume.toInt = n := by
    obtain ⟨_, _, changed⟩ := setVol_eq d ((strtol (decimal n)).setWidth 16)
    rw [changed, toInt_setWidth_strtol, saturated_bmod n low high]
  exact set_then_get (·.volume.toInt) (exchange_setVol d n) (exchange_getVol _) volume failCounter

theorem source_agrees (d : Device) (failCounter : Nat) (n : Int) (low : 0 ≤ n) (high : n < sources) :
    ∃ d', sendMessage d failCounter (ascii "SET_SOURCE " ++ decimal n) = some (d', some 0) ∧
      d'.source = n ∧ sendMessage d' 0 (ascii "GET_SOURCE") = some (d', some n) := by
  have small : n < 3 := high
  have done : execute d (some (decimal n)) .setSource =
      some (setSource d (strtol (decimal n)).toInt, okReply) := rfl
  have source : (setSource d (strtol (decimal n)).toInt).source = n := by
    rw [toInt_strtol n (by omega) (by omega)]
    exact Int.tmod_eq_of_lt low high
  have asked := exchange_getSource (d := setSource d (strtol (decimal n)).toInt)
    (by omega) (by omega)
  exact set_then_get Device.source (exchange_set .setSource (by decide) done) asked source failCounter

theorem gain_agrees (d : Device) (failCounter : Nat) (n : Int) (low : 0 ≤ n) (high : n ≤ maxGain) :
    ∃ d', sendMessage d failCounter (ascii "SET_GAIN " ++ decimal n) = some (d', some 0) ∧
      d'.gain = n ∧ sendMessage d' 0 (ascii "GET_GAIN") = some (d', some n) := by
  have small : n ≤ 3 := high
  have done : execute d (some (decimal n)) .setGain =
      some (setGain d (strtol (decimal n)).toInt, okReply) := rfl
  have gain : (setGain d (strtol (decimal n)).toInt).gain = n := by
    rw [toInt_strtol n (by omega) (by omega)]
    exact Int.tmod_eq_of_lt low (Int.lt_add_one_of_le high)
  have asked := exchange_getGain (d := setGain d (strtol (decimal n)).toInt)
    (by omega) (by omega)
  exact set_then_get Device.gain (exchange_set .setGain (by decide) done) asked gain failCounter

/-- What the client sets it reads back, and asking changes nothing. -/
theorem wire_format_agrees (d : Device) (failCounter : Nat) :
    (∀ n : Int, -2 ^ 15 ≤ n → n < 2 ^ 15 → ∃ d',
      sendMessage d failCounter (ascii "SET_VOL " ++ decimal n) = some (d', some 0) ∧
      d'.volume.toInt = n ∧ sendMessage d' 0 (ascii "GET_VOL") = some (d', some n)) ∧
    (∀ n : Int, 0 ≤ n → n < sources → ∃ d',
      sendMessage d failCounter (ascii "SET_SOURCE " ++ decimal n) = some (d', some 0) ∧
      d'.source = n ∧ sendMessage d' 0 (ascii "GET_SOURCE") = some (d', some n)) ∧
    (∀ n : Int, 0 ≤ n → n ≤ maxGain → ∃ d',
      sendMessage d failCounter (ascii "SET_GAIN " ++ decimal n) = some (d', some 0) ∧
      d'.gain = n ∧ sendMessage d' 0 (ascii "GET_GAIN") = some (d', some n)) ∧
    (∀ verb ∈ questions, ∀ payload arg,
      tokenPair isSep (recText payload) = some (verb.name, arg) →
      ∃ served, serverRecv d payload = some (d, served)) :=
  ⟨volume_agrees d failCounter, source_agrees d failCounter, gain_agrees d failCounter,
    question_unchanged d⟩

/-- A negative volume survives the way there and back. -/
theorem wire_format_agrees_negative : ∃ d',
    sendMessage bootedDevice 0 (ascii "SET_VOL -100") = some (d', some 0) ∧
      d'.volume.toInt = -100 ∧ sendMessage d' 0 (ascii "GET_VOL") = some (d', some (-100)) := by
  have text : ascii "SET_VOL -100" = ascii "SET_VOL " ++ decimal (-100) := by decide
  rw [text]
  exact (wire_format_agrees bootedDevice 0).1 (-100) (by decide) (by decide)

end AsdPre.AndroidApp
