import AsdPre.CommandStream

/-! The command server on bytes that no client of ours would send. Each of the two
tokens may be missing; `strcmp` needs the first, and `strtol` the second in the four
branches that change a setting. -/
namespace AsdPre.CommandFaults

open ByteMemory Firmware CommandServer CommandStream Tokens

/-- The first token is a command, and an argument follows if the command takes one. -/
def CompleteCommand (payload : List Byte) : Prop :=
  ∃ verb : Verb, ∃ arg, tokenPair isSep (recText payload) = some (verb.name, arg) ∧
    (verb.takesArg = true → arg ≠ none)

/-- Every text that some branch puts into `sendbuf`. -/
def replies (d : Device) : List (List Byte) :=
  [okReply, number "VOL" d.volume.toInt, number "VOL_MAX" volMin, number "VOL_MIN" volMax,
    number "SOURCE" d.source, number "SOURCES" sources, number "GAIN" d.gain,
    number "MAX_GAIN" maxGain, number "MUTE" (if d.mute then 1 else 0), errReply]

/-- No NULL pointer is used, one of the replies is sent, and what is not a command
changes no setting and is answered with an error. -/
def Handled (d : Device) (payload : List Byte) : Prop :=
  ∃ d' served, serverRecv d payload = some (d', served) ∧ served.reply ∈ replies d ∧
    (¬ CompleteCommand payload →
      served.reply = errReply ∧ d'.volume = d.volume ∧ d'.source = d.source ∧
        d'.gain = d.gain ∧ d'.mute = d.mute ∧ d'.saveSettings = d.saveSettings)

/-- The commands whose branch hands the second token to `strtol`. -/
def setterNames : List (List Byte) :=
  [ascii "SET_VOL", ascii "SET_SOURCE", ascii "SET_GAIN", ascii "SET_MUTE"]

theorem takesArg_iff (verb : Verb) : verb.takesArg = true ↔ verb.name ∈ setterNames := by
  cases verb <;> decide

theorem execute_eq_none (d : Device) (arg : Option (List Byte)) (verb : Verb) :
    execute d arg verb = none ↔ verb.takesArg = true ∧ arg = none := by
  cases verb <;> simp [execute, setter, Verb.takesArg]

theorem execute_reply {d d' : Device} {arg : Option (List Byte)} {verb : Verb} {reply : List Byte}
    (executed : execute d arg verb = some (d', reply)) : reply ∈ replies d := by
  cases verb
  case setVol | setSource | setGain | setMute =>
    obtain ⟨_, _, same⟩ := Option.map_eq_some_iff.mp executed
    cases same
    simp [replies]
  all_goals
    cases executed
    simp [replies]

/-- A known command with all it needs is executed. -/
theorem handled_known {d : Device} {payload : List Byte} {verb : Verb} {arg : Option (List Byte)}
    (tokens : tokenPair isSep (recText payload) = some (verb.name, arg))
    (argument : verb.takesArg = true → arg ≠ none) : Handled d payload := by
  have executed : execute d arg verb ≠ none := by
    rw [ne_eq, execute_eq_none]
    rintro ⟨takes, missing⟩
    exact argument takes missing
  obtain ⟨⟨d', reply⟩, result⟩ := Option.ne_none_iff_exists'.mp executed
  refine ⟨d', ⟨some (verb, if verb.takesArg then arg else none), reply⟩, ?_,
    execute_reply result, fun incomplete => ?_⟩
  · simp [serverRecv, tokens, ofToken_name, result]
  · exact absurd ⟨verb, arg, tokens, argument⟩ incomplete

theorem handled_unknown {d : Device} {payload cmd : List Byte} {arg : Option (List Byte)}
    (tokens : tokenPair isSep (recText payload) = some (cmd, arg))
    (unknown : Verb.ofToken cmd = none) : Handled d payload :=
  ⟨d, ⟨none, errReply⟩, by simp [serverRecv, tokens, unknown], by simp [replies],
    fun _ => ⟨rfl, rfl, rfl, rfl, rfl, rfl⟩⟩

/-- The handler copes exactly with the payloads whose text, up to the first NUL, has
a token, and a second one if the first is a setter. -/
theorem handled_iff (d : Device) (payload : List Byte) :
    Handled d payload ↔ ∃ cmd arg, tokenPair isSep (recText payload) = some (cmd, arg) ∧
      (cmd ∈ setterNames → arg ≠ none) := by
  constructor
  · rintro ⟨d', served, received, _, _⟩
    simp only [serverRecv] at received
    split at received
    · cases received
    · rename_i cmd arg tokens
      refine ⟨cmd, arg, tokens, fun setter missing => ?_⟩
      split at received
      · rename_i unknown
        have known : ∀ name ∈ setterNames, Verb.ofToken name ≠ none := by decide
        exact known cmd setter unknown
      · rename_i verb found
        obtain ⟨_, executed, _⟩ := Option.map_eq_some_iff.mp received
        rw [← name_of_ofToken found, ← takesArg_iff] at setter
        rw [(execute_eq_none d arg verb).mpr ⟨setter, missing⟩] at executed
        cases executed
  · rintro ⟨cmd, arg, tokens, argument⟩
    cases found : Verb.ofToken cmd with
    | none => exact handled_unknown tokens found
    | some verb =>
      rw [← name_of_ofToken found] at tokens argument
      exact handled_known tokens fun takes => argument ((takesArg_iff verb).mp takes)

/-- An empty line has no command, and `strcmp` gets a NULL pointer. -/
theorem empty_line_faults : ¬ ∀ (d : Device) (payload : List Byte), Handled d payload := by
  intro holds
  obtain ⟨d', served, received, _⟩ := holds bootedDevice (ascii "\n")
  have faults : serverRecv bootedDevice (ascii "\n") = none := by decide
  simp [faults] at received

end AsdPre.CommandFaults
