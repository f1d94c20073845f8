import AsdPre.CommandServer

/-! Commands on a byte stream. The client ends each command with a newline; TCP
delivers the bytes in order and cuts them anywhere. The server never looks for the
newline: it takes one command from the first pbuf of each segment. -/
namespace AsdPre.CommandStream

open ByteMemory Firmware CommandServer Tokens

/-- A line that is one command: its name, its argument if it takes one, and nothing
else but separators. -/
structure Line where
  body : List Byte
  verb : Verb
  arg : Option (List Byte)
  nulFree : 0#8 ∉ body
  oneLine : 0x0a#8 ∉ body
  tokens : tokenPair isSep body = some (verb.name, arg)
  argument : arg.isSome = verb.takesArg
  complete : significant isSep body = verb.name ++ arg.getD []

def Line.bytes (line : Line) : List Byte := line.body ++ [0x0a#8]

/-- A line that arrives whole, in its own segment. -/
def Line.segment (line : Line) : Segment := ⟨line.bytes, []⟩

/-- The segment brings the line's command, up to separators, and brings it all in
its first pbuf. -/
def Carries (segment : Segment) (line : Line) : Prop :=
  significant isSep segment.first = significant isSep line.bytes ∧
    significant isSep segment.more.flatten = []

theorem blank_newline : Blank isSep [0x0a#8] := by
  simp [Blank, isSep, separators]

theorem recText_of_nulFree {s : List Byte} (clean : 0#8 ∉ s) : recText s = s := by
  rw [recText, List.takeWhile_eq_self_iff]
  intro c member
  simp only [ne_eq, decide_not, Bool.not_eq_eq_eq_not, Bool.not_true, decide_eq_false_iff_not]
  rintro rfl
  exact clean member

section Lines

variable (line : Line)

theorem line_nulFree : 0#8 ∉ line.bytes := by simpa [Line.bytes] using line.nulFree

theorem line_tokens : tokenPair isSep line.bytes = some (line.verb.name, line.arg) := by
  rw [Line.bytes, tokenPair_blank blank_newline, line.tokens]

theorem line_significant : significant isSep line.bytes = line.verb.name ++ line.arg.getD [] := by
  rw [Line.bytes, significant_append, blank_iff.mp blank_newline, List.append_nil, line.complete]

theorem line_nonblank : significant isSep line.bytes ≠ [] := by
  rw [line_significant]
  cases line.verb <;> simp [Verb.name, ascii]

end Lines

theorem ofToken_name (verb : Verb) : Verb.ofToken verb.name = some verb := by
  cases verb <;> decide

theorem name_of_ofToken {cmd : List Byte} {verb : Verb} (found : Verb.ofToken cmd = some verb) :
    verb.name = cmd := by
  simpa using List.find?_some found

/-- A command without an argument does not look at the second token. -/
theorem execute_unused (d : Device) (arg : Option (List Byte)) (verb : Verb) :
    execute d (if verb.takesArg then arg else none) verb = execute d arg verb := by
  cases verb <;> rfl

/-- A whole line is executed. -/
theorem serverRecv_line (d : Device) (line : Line) : ∃ d' reply,
    serverRecv d line.bytes = some (d', ⟨some (line.verb, line.arg), reply⟩) := by
  have argument := line.argument
  have served : (execute d line.arg line.verb).isSome = true := by
    cases verb : line.verb <;> cases arg : line.arg <;>
      simp_all [execute, setter, Verb.takesArg]
  obtain ⟨⟨d', reply⟩, executed⟩ := Option.isSome_iff_exists.mp served
  have used : (if line.verb.takesArg then line.arg else none) = line.arg := by
    cases arg : line.arg <;> simp_all
  refine ⟨d', reply, ?_⟩
  simp [serverRecv, recText_of_nulFree (line_nulFree line), line_tokens, ofToken_name, executed, used]

/-- An executed command was in the text, and alone decides what happened. -/
theorem serverRecv_command {d d' : Device} {payload reply : List Byte} {verb : Verb}
    {arg : Option (List Byte)}
    (served : serverRecv d payload = some (d', ⟨some (verb, arg), reply⟩)) :
    verb.name ++ arg.getD [] <+: significant isSep (recText payload) ∧
      execute d arg verb = some (d', reply) := by
  simp only [serverRecv] at served
  split at served
  · cases served
  · rename_i cmd second tokens
    split at served
    · cases served
    · rename_i found
      obtain ⟨⟨d₂, reply₂⟩, executed, same⟩ := Option.map_eq_some_iff.mp served
      cases same
      have whole := tokenPair_significant tokens
      rw [← name_of_ofToken found] at whole
      rw [execute_unused]
      refine ⟨?_, executed⟩
      cases verb.takesArg with
      | true => exact whole
      | false => simpa using (List.prefix_append _ _).trans whole

theorem serve_eq_nil {d : Device} {segments : List Segment} (nothing : serve d segments = []) :
    segments = [] := by
  cases segments with
  | nil => rfl
  | cons segment rest =>
    simp only [serve] at nothing
    split at nothing <;> cases nothing

/-- Equal results mean that each segment brought at least its line's command. -/
theorem brought_of_serve_eq {d : Device} {segments : List Segment} {lines : List Line}
    (clean : ∀ segment ∈ segments, 0#8 ∉ segment.first)
    (same : serve d segments = serve d (lines.map Line.segment)) :
    List.Forall₂ (fun segment line =>
      significant isSep line.bytes <+: significant isSep segment.first) segments lines := by
  induction lines generalizing d segments with
  | nil =>
    rw [serve_eq_nil same]
    exact .nil
  | cons line lines ih =>
    obtain ⟨d', reply, whole⟩ := serverRecv_line d line
    cases segments with
    | nil => simp [serve, Line.segment, whole] at same
    | cons segment segments =>
      cases received : serverRecv d segment.first with
      | none => simp [serve, Line.segment, whole, received] at same
      | some result =>
        obtain ⟨d₂, served⟩ := result
        simp only [List.map_cons, serve, Line.segment, whole, received, List.cons.injEq,
          Option.some.injEq] at same
        obtain ⟨rfl, later⟩ := same
        obtain ⟨brought, executed⟩ := serverRecv_command received
        have alike := (serverRecv_command whole).2
        rw [executed] at alike
        cases alike
        rw [recText_of_nulFree (clean segment (by simp)), ← line_significant] at brought
        exact .cons brought (ih (fun other member => clean other (by simp [member])) later)

/-- There is nothing to bring beyond the commands. -/
theorem carries_of_brought {segments : List Segment} {lines : List Line}
    (brought : List.Forall₂ (fun segment line =>
      significant isSep line.bytes <+: significant isSep segment.first) segments lines) :
    (significant isSep (lines.flatMap Line.bytes)).length ≤
      (significant isSep (segments.flatMap Segment.bytes)).length ∧
    ((significant isSep (lines.flatMap Line.bytes)).length =
      (significant isSep (segments.flatMap Segment.bytes)).length →
        List.Forall₂ Carries segments lines) := by
  induction brought with
  | nil => exact ⟨Nat.le_refl _, fun _ => .nil⟩
  | cons first _ ih =>
    have shorter := first.length_le
    obtain ⟨least, exactly⟩ := ih
    simp only [List.flatMap_cons, Segment.bytes, significant_append, List.length_append]
    refine ⟨by omega, fun total => .cons ⟨?_, ?_⟩ (exactly (by omega))⟩
    · exact (first.eq_of_length (by omega)).symm
    · exact List.length_eq_zero_iff.mp (by omega)

/-- Segments that carry the lines give the same results as the lines. -/
theorem serve_eq_of_carries {d : Device} {segments : List Segment} {lines : List Line} {a b : List Byte}
    (clean : ∀ segment ∈ segments, 0#8 ∉ segment.first)
    (blankA : Blank isSep a) (blankB : Blank isSep b)
    (stream : a ++ segments.flatMap Segment.bytes = b ++ lines.flatMap Line.bytes)
    (carried : List.Forall₂ Carries segments lines) :
    serve d segments = serve d (lines.map Line.segment) := by
  induction carried generalizing d a b with
  | nil => rfl
  | @cons segment line segments lines first _ ih =>
    rw [List.flatMap_cons, List.flatMap_cons, Segment.bytes, List.append_assoc] at stream
    obtain ⟨tokens, a', b', blankA', blankB', rest⟩ :=
      peel blankA blankB stream first.1 (line_nonblank line)
    have received : serverRecv d segment.first = serverRecv d line.bytes := by
      rw [serverRecv, serverRecv, recText_of_nulFree (clean segment (by simp)),
        recText_of_nulFree (line_nulFree line), tokens]
    obtain ⟨d', reply, whole⟩ := serverRecv_line d line
    have blank : Blank isSep (a' ++ segment.more.flatten) := by
      rw [blank_iff, significant_append, blank_iff.mp blankA', first.2, List.append_nil]
    have later : serve d' segments = serve d' (lines.map Line.segment) :=
      ih (fun other member => clean other (by simp [member])) blank blankB'
        (by rw [List.append_assoc, rest])
    simp only [List.map_cons, serve, Line.segment, received, whole, later]

/-- The server does what the client wrote exactly when each command comes alone, and
whole in the first pbuf of its segment; only separators may lie elsewhere. -/
theorem serve_lines_iff (d : Device) (lines : List Line) (segments : List Segment)
    (stream : segments.flatMap Segment.bytes = lines.flatMap Line.bytes) :
    serve d segments = serve d (lines.map Line.segment) ↔ List.Forall₂ Carries segments lines := by
  have clean : ∀ segment ∈ segments, 0#8 ∉ segment.first := by
    intro segment member zero
    have sent : 0#8 ∈ lines.flatMap Line.bytes := by
      rw [← stream]
      exact List.mem_flatMap.mpr ⟨segment, member, List.mem_append_left _ zero⟩
    obtain ⟨line, _, inside⟩ := List.mem_flatMap.mp sent
    exact line_nulFree line inside
  constructor
  · intro same
    exact (carries_of_brought (brought_of_serve_eq clean same)).2 (by rw [stream])
  · intro carried
    have blank : Blank isSep [] := by simp [Blank]
    exact serve_eq_of_carries clean blank blank (by simpa using stream) carried

/-- A setting and a question, as the client sends them. -/
def setVolLine : Line :=
  ⟨ascii "SET_VOL 123", .setVol, some (ascii "123"), by decide, by decide, by decide, rfl, by decide⟩

def getVolLine : Line :=
  ⟨ascii "GET_VOL", .getVol, none, by decide, by decide, by decide, rfl, by decide⟩

/-- The newline of the first command may come late, and that of the second in a further pbuf. -/
theorem serve_lines_iff_late_newline :
    serve bootedDevice [⟨ascii "SET_VOL 123", []⟩, ⟨ascii "\nGET_VOL", [ascii "\n"]⟩] =
      serve bootedDevice ([setVolLine, getVolLine].map Line.segment) :=
  (serve_lines_iff bootedDevice [setVolLine, getVolLine]
    [⟨ascii "SET_VOL 123", []⟩, ⟨ascii "\nGET_VOL", [ascii "\n"]⟩] (by decide)).mpr
    (.cons ⟨by decide, by decide⟩ (.cons ⟨by decide, by decide⟩ .nil))

/-- Cut between its digits, a command sets the volume to 12 and the rest of it is an error. -/
theorem split_number_misread : ¬ ∀ (d : Device) (lines : List Line) (segments : List Segment),
    segments.flatMap Segment.bytes = lines.flatMap Line.bytes →
    serve d segments = serve d (lines.map Line.segment) := by
  intro holds
  have same := holds bootedDevice [setVolLine] [⟨ascii "SET_VOL 12", []⟩, ⟨ascii "3\n", []⟩] (by decide)
  exact absurd same (by decide +kernel)

end AsdPre.CommandStream
