import Mathlib

/-! Splitting a text at separators, as `strtok` does, over any alphabet. What a
tokenizer sees does not depend on the separators around the text. -/
namespace AsdPre.Tokens

variable {α : Type u} (sep : α → Bool)

/-- The next token and the text after the separator that ends it; a call of
`strtok`, which overwrites that separator. -/
def strtok (s : List α) : Option (List α × List α) :=
  match s.dropWhile sep with
  | [] => none
  | c :: rest => some (c :: rest.takeWhile (!sep ·), (rest.dropWhile (!sep ·)).drop 1)

/-- The tokens of two calls in a row. -/
def tokenPair (s : List α) : Option (List α × Option (List α)) :=
  (strtok sep s).map fun (token, rest) => (token, (strtok sep rest).map Prod.fst)

/-- The text without its separators. -/
def significant (s : List α) : List α := s.filter (!sep ·)

def Blank (s : List α) : Prop := ∀ c ∈ s, sep c = true

variable {sep}

theorem blank_iff {s : List α} : Blank sep s ↔ significant sep s = [] := by
  simp [Blank, significant]

@[simp] theorem significant_append (s t : List α) :
    significant sep (s ++ t) = significant sep s ++ significant sep t := List.filter_append ..

/-- Leading separators are not significant. -/
theorem significant_dropWhile (s : List α) : significant sep (s.dropWhile sep) = significant sep s := by
  have skipped : significant sep (s.takeWhile sep) = [] :=
    blank_iff.mp fun _ member => List.mem_takeWhile_imp member
  conv_rhs => rw [← List.takeWhile_append_dropWhile (p := sep) (l := s)]
  rw [significant_append, skipped, List.nil_append]

theorem tokenPair_dropWhile (s : List α) : tokenPair sep (s.dropWhile sep) = tokenPair sep s := by
  have again : (s.dropWhile sep).dropWhile sep = s.dropWhile sep := List.dropWhile_idempotent sep s
  rw [tokenPair, strtok, again, tokenPair, strtok]

/-- A token is the first of what is significant. -/
theorem strtok_significant {s token rest : List α} (found : strtok sep s = some (token, rest)) :
    significant sep s = token ++ significant sep rest := by
  rw [← significant_dropWhile]
  simp only [strtok] at found
  split at found
  · cases found
  · rename_i c tail start
    cases found
    have first : sep c = false := by
      have stopped := List.dropWhile_get_zero_not sep s (by simp [start])
      simpa [start] using stopped
    have token : significant sep (tail.takeWhile (!sep ·)) = tail.takeWhile (!sep ·) :=
      List.filter_eq_self.mpr fun _ member => List.mem_takeWhile_imp (p := (!sep ·)) member
    have rest : significant sep ((tail.dropWhile (!sep ·)).drop 1) =
        significant sep (tail.dropWhile (!sep ·)) := by
      cases ended : tail.dropWhile (!sep ·) with
      | nil => rfl
      | cons e after =>
        have stopped := List.dropWhile_get_zero_not (!sep ·) tail (by simp [ended])
        have separator : sep e = true := by simpa [ended] using stopped
        simp [significant, separator]
    calc significant sep (s.dropWhile sep)
      _ = c :: significant sep tail := by simp [start, significant, first]
      _ = c :: significant sep (tail.takeWhile (!sep ·) ++ tail.dropWhile (!sep ·)) := by
        rw [List.takeWhile_append_dropWhile]
      _ = c :: (tail.takeWhile (!sep ·) ++ significant sep (tail.dropWhile (!sep ·))) := by
        rw [significant_append, token]
      _ = _ := by rw [rest, List.cons_append]

theorem tokenPair_significant {s token : List α} {arg : Option (List α)}
    (found : tokenPair sep s = some (token, arg)) : token ++ arg.getD [] <+: significant sep s := by
  obtain ⟨⟨first, rest⟩, split, same⟩ := Option.map_eq_some_iff.mp found
  cases same
  rw [strtok_significant split]
  cases second : strtok sep rest with
  | none => simp
  | some pair =>
    obtain ⟨next, after⟩ := pair
    rw [strtok_significant second]
    simp

/-- Trailing separators change no token, only what is left after the last. -/
theorem strtok_blank {s post : List α} (blank : Blank sep post) :
    (strtok sep s = none → strtok sep (s ++ post) = none) ∧
    ∀ token rest, strtok sep s = some (token, rest) →
      ∃ more, Blank sep more ∧ strtok sep (s ++ post) = some (token, rest ++ more) := by
  have skipped : post.dropWhile sep = [] := List.dropWhile_eq_nil_iff.mpr blank
  cases start : s.dropWhile sep with
  | nil => simp [strtok, start, List.dropWhile_append, skipped]
  | cons c tail =>
    have longer : (s ++ post).dropWhile sep = c :: (tail ++ post) := by
      simp [List.dropWhile_append, start]
    refine ⟨by simp [strtok, start], fun token rest found => ?_⟩
    simp only [strtok, start, Option.some.injEq, Prod.mk.injEq] at found
    obtain ⟨rfl, rfl⟩ := found
    have parts := List.takeWhile_append_dropWhile (p := (!sep ·)) (l := tail)
    simp only [strtok, longer, Option.some.injEq, Prod.mk.injEq, List.cons.injEq, true_and]
    cases ended : tail.dropWhile (!sep ·) with
    | nil =>
      rw [ended, List.append_nil] at parts
      have stops : post.takeWhile (!sep ·) = [] ∧ post.dropWhile (!sep ·) = post := by
        cases post with
        | nil => simp
        | cons e _ => simp [blank e (by simp)]
      refine ⟨post.drop 1, fun e member => blank e (List.mem_of_mem_drop member), ?_, ?_⟩
      · rw [List.takeWhile_append, parts, if_pos rfl, stops.1, List.append_nil]
      · simp [List.dropWhile_append, ended, stops.2]
    | cons e after =>
      have shorter : (tail.takeWhile (!sep ·)).length ≠ tail.length := by
        have lengths := congrArg List.length parts
        rw [ended, List.length_append, List.length_cons] at lengths
        omega
      refine ⟨post, blank, ?_, ?_⟩
      · rw [List.takeWhile_append, if_neg shorter]
      · simp [List.dropWhile_append, ended]

theorem tokenPair_blank {s post : List α} (blank : Blank sep post) :
    tokenPair sep (s ++ post) = tokenPair sep s := by
  obtain ⟨none, some⟩ := strtok_blank (s := s) blank
  cases first : strtok sep s with
  | none => simp [tokenPair, first, none first]
  | some pair =>
    obtain ⟨token, rest⟩ := pair
    obtain ⟨more, blankMore, longer⟩ := some token rest first
    obtain ⟨none', some'⟩ := strtok_blank (s := rest) blankMore
    cases second : strtok sep rest with
    | none => simp [tokenPair, first, second, longer, none' second]
    | some pair =>
      obtain ⟨arg, after⟩ := pair
      obtain ⟨_, _, longer'⟩ := some' arg after second
      simp [tokenPair, first, second, longer, longer']

/-- A word up to a separator, or up to the end, is a token. -/
theorem strtok_word {word : List α} (rest : List α) (solid : ∀ c ∈ word, sep c = false)
    (nonempty : word ≠ []) (ends : ∀ c ∈ rest.head?, sep c = true) :
    strtok sep (word ++ rest) = some (word, rest.drop 1) := by
  cases word with
  | nil => contradiction
  | cons c word =>
    have start : (c :: word ++ rest).dropWhile sep = c :: (word ++ rest) := by
      simp [solid c (by simp)]
    have inside : ∀ e ∈ word, (!sep e) = true := fun e member => by simp [solid e (by simp [member])]
    have outside : rest.takeWhile (!sep ·) = [] ∧ rest.dropWhile (!sep ·) = rest := by
      cases rest with
      | nil => exact ⟨rfl, rfl⟩
      | cons e rest => simp [ends e (by simp)]
    simp only [strtok, start, Option.some.injEq, Prod.mk.injEq, List.cons.injEq, true_and]
    rw [List.takeWhile_append_of_pos inside, List.dropWhile_append_of_pos inside, outside.1, outside.2]
    simp

theorem tokenPair_word {word : List α} (solid : ∀ c ∈ word, sep c = false) (nonempty : word ≠ []) :
    tokenPair sep word = some (word, none) := by
  have only := strtok_word [] solid nonempty (by simp)
  rw [List.append_nil] at only
  have nothing : strtok sep ([] : List α) = none := rfl
  simp [tokenPair, only, nothing]

theorem tokenPair_words {a b : List α} {s : α} (solidA : ∀ c ∈ a, sep c = false) (nonemptyA : a ≠ [])
    (solidB : ∀ c ∈ b, sep c = false) (nonemptyB : b ≠ []) (separator : sep s = true) :
    tokenPair sep (a ++ s :: b) = some (a, some b) := by
  have first := strtok_word (s :: b) solidA nonemptyA (by simp [separator])
  have second := strtok_word [] solidB nonemptyB (by simp)
  rw [List.append_nil] at second
  simp [tokenPair, first, second]

/-- Two cuts of one stream whose first pieces differ in separators only: the pieces
have the same tokens, and the rests differ in separators in front. -/
theorem peel {a b s t x y : List α} (blankA : Blank sep a) (blankB : Blank sep b)
    (stream : a ++ (s ++ x) = b ++ (t ++ y)) (same : significant sep s = significant sep t)
    (nonblank : significant sep t ≠ []) :
    tokenPair sep s = tokenPair sep t ∧
      ∃ a' b', Blank sep a' ∧ Blank sep b' ∧ a' ++ x = b' ++ y := by
  have starts {u : List α} (some : significant sep u ≠ []) : (u.dropWhile sep).isEmpty = false := by
    cases start : u.dropWhile sep with
    | nil =>
      rw [← significant_dropWhile, start] at some
      exact absurd rfl some
    | cons => rfl
  have aligned : s.dropWhile sep ++ x = t.dropWhile sep ++ y := by
    have dropped := congrArg (List.dropWhile sep) stream
    rw [List.dropWhile_append_of_pos blankA, List.dropWhile_append_of_pos blankB, List.dropWhile_append,
      List.dropWhile_append, starts nonblank, starts (same ▸ nonblank)] at dropped
    simpa using dropped
  have rest : significant sep (s.dropWhile sep) = significant sep (t.dropWhile sep) := by
    rw [significant_dropWhile, significant_dropWhile, same]
  rw [← tokenPair_dropWhile s, ← tokenPair_dropWhile t]
  rcases List.append_eq_append_iff.mp aligned with ⟨z, longer, after⟩ | ⟨z, longer, after⟩
  · have blank : Blank sep z := by
      rw [longer, significant_append] at rest
      exact blank_iff.mpr (List.self_eq_append_right.mp rest)
    exact ⟨by rw [longer, tokenPair_blank blank], [], z, by simp [Blank], blank, after⟩
  · have blank : Blank sep z := by
      rw [longer, significant_append] at rest
      exact blank_iff.mpr (List.self_eq_append_right.mp rest.symm)
    exact ⟨by rw [longer, tokenPair_blank blank], z, [], blank, by simp [Blank], after.symm⟩

end AsdPre.Tokens
