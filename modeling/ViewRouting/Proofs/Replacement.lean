import Mathlib.Data.List.TakeWhile
import ViewRouting.Proofs.HelperNames

/-! Patterns and their replacement throughout a text. A pattern is searched from left to right.
Where it matches, its runs take as much as they can while the rest of it still matches, what it took
is written anew, and the search goes on behind it. The passes of the snake case are such
replacements. -/

namespace ViewRouting.Text

/-- A pattern is a row of items: one character of a class, or a run of at least one of them. -/
inductive Item where
  | one (p : Char → Bool)
  | run (p : Char → Bool)

/-- A run at the start of a text, the longest one behind which `next` matches. -/
def takeRun {α : Type} (p : Char → Bool) (next : List Char → Option α) :
    List Char → Option (List Char × α)
  | [] => none
  | c :: cs =>
    if p c then
      (takeRun p next cs).map (fun m => (c :: m.1, m.2)) <|> (next cs).map fun m => ([c], m)
    else none

def matchItems : List Item → List Char → Option (List (List Char))
  | [], _ => some []
  | .one _ :: _, [] => none
  | .one p :: items, c :: cs => if p c then (matchItems items cs).map ([c] :: ·) else none
  | .run p :: items, cs => (takeRun p (matchItems items) cs).map fun m => m.1 :: m.2

/-- Every match of a pattern, which takes at least one character, is written anew. -/
def replaceAll (items : List Item) (write : List (List Char) → List Char) : List Char → List Char
  | [] => []
  | c :: cs =>
    match matchItems items (c :: cs) with
    | some pieces =>
      write pieces ++ replaceAll items write (cs.drop (pieces.flatten.length - 1))
    | none => c :: replaceAll items write cs
termination_by cs => cs.length

section Search
variable {items : List Item} {write : List (List Char) → List Char}

theorem replaceAll_miss {c : Char} {cs : List Char} (h : matchItems items (c :: cs) = none) :
    replaceAll items write (c :: cs) = c :: replaceAll items write cs := by
  rw [replaceAll, h]

theorem replaceAll_match {taken rest : List Char} {pieces : List (List Char)}
    (h : matchItems items (taken ++ rest) = some pieces) (whole : pieces.flatten = taken)
    (some : taken ≠ []) :
    replaceAll items write (taken ++ rest) = write pieces ++ replaceAll items write rest := by
  cases taken with
  | nil => exact absurd rfl some
  | cons c cs =>
    rw [List.cons_append] at h ⊢
    rw [replaceAll, h]
    simp [whole]

theorem replaceAll_skip {stretch rest : List Char}
    (h : ∀ c ds, c :: ds <:+ stretch → matchItems items (c :: ds ++ rest) = none) :
    replaceAll items write (stretch ++ rest) = stretch ++ replaceAll items write rest := by
  induction stretch with
  | nil => rfl
  | cons c cs ih =>
    have later := ih fun d ds hd => h d ds (hd.trans (List.suffix_cons c cs))
    have miss := h c cs List.suffix_rfl
    rw [List.cons_append] at miss ⊢
    rw [replaceAll_miss miss, later, List.cons_append]

end Search

section Runs
variable {α : Type} {p : Char → Bool} {next : List Char → Option α}

theorem takeRun_append {taken rest : List Char} {m : α} (some : taken ≠ [])
    (held : ∀ c ∈ taken, p c) (stop : takeRun p next rest = none) (h : next rest = .some m) :
    takeRun p next (taken ++ rest) = .some (taken, m) := by
  induction taken with
  | nil => exact absurd rfl some
  | cons c cs ih =>
    have hc : p c := held c (by simp)
    cases cs with
    | nil => simp [takeRun, hc, stop, h]
    | cons d ds =>
      have later := ih (by simp) fun e he => held e (by simp [he])
      rw [List.cons_append, takeRun, if_pos hc, later]
      rfl

theorem takeRun_none {taken rest : List Char} (stop : takeRun p next rest = none)
    (h : ∀ c ds, c :: ds <:+ taken → next (ds ++ rest) = none) :
    takeRun p next (taken ++ rest) = none := by
  induction taken with
  | nil => exact stop
  | cons c cs ih =>
    have later := ih fun d ds hd => h d ds (hd.trans (List.suffix_cons c cs))
    simp [takeRun, later, h c cs List.suffix_rfl]

end Runs

theorem forall_mem_run {p : Char → Bool} {c : Char} (cs : List Char) (h : p c) :
    ∀ d ∈ c :: cs.takeWhile p, p d :=
  List.forall_mem_cons.mpr ⟨h, fun _ hd => List.mem_takeWhile_imp hd⟩

theorem run_induction {p : Char → Bool} {motive : List Char → Prop} (nil : motive [])
    (run : ∀ c cs, p c → motive (cs.dropWhile p) → motive (c :: cs))
    (other : ∀ c cs, p c = false → motive cs → motive (c :: cs)) (cs : List Char) : motive cs := by
  induction h : cs.length using Nat.strong_induction_on generalizing cs with
  | _ n ih =>
    cases cs with
    | nil => exact nil
    | cons c cs =>
      have dropped := (List.dropWhile_suffix p (l := cs)).length_le
      simp only [List.length_cons] at h
      cases hc : p c with
      | true => exact run c cs hc (ih _ (by omega) _ rfl)
      | false => exact other c cs hc (ih _ (by omega) _ rfl)

end ViewRouting.Text

namespace ViewRouting.Naming
open Text

def underscored : List (List Char) → List Char
  | [] => []
  | first :: rest => first ++ '_' :: rest.flatten

/-- Several capitals before a small letter, the last of them apart. -/
def acronym : List Item :=
  [.run Char.isUpper, .one Char.isUpper, .one Char.isLower]

def wordEnd : List Item :=
  [.one endsWord, .one Char.isUpper]

theorem bridge_true (p : Char → Bool) (cs : List Char) :
    bridge p true cs = bridge p false (cs.dropWhile p) := by
  induction cs with
  | nil => rfl
  | cons c cs ih => cases h : p c <;> simp [bridge, h, ih]

theorem matchRun {p : Char → Bool} {c : Char} (cs : List Char) (h : p c) :
    matchItems [.run p] (c :: cs.takeWhile p ++ cs.dropWhile p) = some [c :: cs.takeWhile p] := by
  have stop : takeRun p (matchItems []) (cs.dropWhile p) = none := by
    have start := List.head?_dropWhile_not p cs
    cases hd : cs.dropWhile p with
    | nil => rfl
    | cons d ds =>
      have other : p d = false := by simpa [hd] using start
      simp [takeRun, other]
  have run := takeRun_append (List.cons_ne_nil c _) (forall_mem_run cs h) stop rfl
  rw [matchItems, run]
  rfl

theorem bridge_eq_replaceAll (p : Char → Bool) (cs : List Char) :
    bridge p false cs = replaceAll [.run p] (fun _ => ['_']) cs := by
  induction cs using run_induction (p := p) with
  | nil => simp [bridge, replaceAll]
  | run c cs hc ih =>
    have cut : c :: cs = c :: cs.takeWhile p ++ cs.dropWhile p := by simp
    rw [cut, replaceAll_match (matchRun cs hc) (by simp) (by simp), ← ih, ← bridge_true, ← cut]
    simp [bridge, hc]
  | other c cs hc ih =>
    have miss : matchItems [.run p] (c :: cs) = none := by simp [matchItems, takeRun, hc]
    rw [replaceAll_miss miss, ← ih]
    simp [bridge, hc]

/-! Capitals. -/

section Capitals
variable {caps rest : List Char}

theorem wordless_pair {a b : Char}
    (wordless : caps.length ≤ 1 ∨ ∀ c ∈ rest.head?, c.isLower = false) (pair : [a, b] <:+ caps) :
    ∀ c ∈ rest.head?, c.isLower = false := by
  -- Capitals that end in two are more than one, so it is the word behind them that is missing.
  rcases wordless with short | small
  · have := pair.length_le
    simp at this
    omega
  · exact small

theorem acronym_none (upper : ∀ c ∈ caps, c.isUpper) (start : ∀ c ∈ rest.head?, c.isUpper = false)
    (wordless : caps.length ≤ 1 ∨ ∀ c ∈ rest.head?, c.isLower = false) :
    matchItems acronym (caps ++ rest) = none := by
  have stop : takeRun Char.isUpper (matchItems [.one Char.isUpper, .one Char.isLower]) rest =
      none := by
    cases rest with
    | nil => rfl
    | cons c cs => simp [takeRun, start c rfl]
  rw [acronym, matchItems, takeRun_none stop]
  · rfl
  · intro c ds hd
    match ds with
    | [] =>
      cases rest with
      | nil => rfl
      | cons d ds => simp [matchItems, start d rfl]
    | [b] =>
      have small := wordless_pair wordless hd
      cases rest with
      | nil => simp [matchItems]
      | cons d ds => simp [matchItems, small d rfl]
    | b :: a :: ds =>
      have ha : a.isLower = false := not_isLower_upper (upper a (hd.mem (by simp)))
      simp [matchItems, ha]

theorem acronym_match {b c : Char} (some : caps ≠ []) (upper : ∀ c ∈ caps, c.isUpper)
    (last : b.isUpper) (small : c.isLower) :
    matchItems acronym (caps ++ b :: c :: rest) = .some [caps, [b], [c]] := by
  -- At capitals before a word the last of them is left to the word: a longer run would have no
  -- capital behind it.
  have next : c.isUpper = false := by
    cases h : c.isUpper with
    | true => cases small.symm.trans (not_isLower_upper h)
    | false => rfl
  have stop : takeRun Char.isUpper (matchItems [.one Char.isUpper, .one Char.isLower])
      (b :: c :: rest) = none := by
    simp [takeRun, matchItems, next]
  have found : matchItems [.one Char.isUpper, .one Char.isLower] (b :: c :: rest) =
      .some [[b], [c]] := by
    simp [matchItems, last, small]
  rw [acronym, matchItems, takeRun_append some upper stop found]
  rfl

end Capitals

theorem replaceAll_partRun {run : List Char} (upper : ∀ c ∈ run, c.isUpper) {c : Char}
    (next : c.isUpper = false) (cs : List Char) :
    replaceAll acronym underscored (run.reverse ++ c :: cs) =
      partRun c run ++ c :: replaceAll acronym underscored cs := by
  have kept (wordless : run.length ≤ 1 ∨ c.isLower = false) :
      replaceAll acronym underscored (run.reverse ++ c :: cs) =
        run.reverse ++ c :: replaceAll acronym underscored cs := by
    have here : matchItems acronym ([] ++ c :: cs) = none :=
      acronym_none (by simp) (by simpa using next) (by simp)
    rw [replaceAll_skip, replaceAll_miss here]
    intro d ds hd
    apply acronym_none
    · exact fun x hx => upper x (List.mem_reverse.mp (hd.mem hx))
    · simpa using next
    · have short := hd.length_le
      rw [List.length_reverse] at short
      exact wordless.imp short.trans (by simp)
  match run with
  | [] => exact kept (by simp)
  | [b] => exact kept (by simp)
  | b :: a :: run =>
    rw [partRun]
    split
    · next small =>
      have found : matchItems acronym ((a :: run).reverse ++ b :: c :: cs) =
          some [(a :: run).reverse, [b], [c]] :=
        acronym_match (by simp) (fun x hx => upper x (by simp at hx ⊢; tauto))
          (upper b (by simp)) small
      have split : (b :: a :: run).reverse ++ c :: cs =
          ((a :: run).reverse ++ [b, c]) ++ cs := by simp
      have whole : [(a :: run).reverse, [b], [c]].flatten = (a :: run).reverse ++ [b, c] := by simp
      rw [split, replaceAll_match (by simpa using found) whole (by simp)]
      simp [underscored]
    · next other => exact kept (.inr (by simpa using other))

theorem partAcronyms_eq_replaceAll (run cs : List Char) (upper : ∀ c ∈ run, c.isUpper) :
    partAcronyms run cs = replaceAll acronym underscored (run.reverse ++ cs) := by
  -- As for the seams, the run that is being read stands before the rest of the text.
  induction cs generalizing run with
  | nil =>
    rw [partAcronyms, replaceAll_skip]
    · simp [replaceAll]
    · intro c ds hd
      apply acronym_none
      · intro x hx
        exact upper x (by simpa using hd.mem hx)
      · simp
      · simp
  | cons c cs ih =>
    rw [partAcronyms]
    cases hc : c.isUpper with
    | true => simpa using ih (c :: run) (by simpa [hc] using upper)
    | false => simpa [ih [] (by simp)] using (replaceAll_partRun upper hc cs).symm

theorem partWords_eq_replaceAll (cs : List Char) :
    partWords cs = replaceAll wordEnd underscored cs := by
  induction cs using partWords.induct with
  | case1 a b cs parted ih =>
    have found : matchItems wordEnd ([a, b] ++ cs) = some [[a], [b]] := by
      simpa [wordEnd, matchItems] using parted
    have step : replaceAll wordEnd underscored ([a, b] ++ cs) =
        underscored [[a], [b]] ++ replaceAll wordEnd underscored cs :=
      replaceAll_match found rfl (by simp)
    rw [partWords, if_pos parted, ih]
    exact step.symm
  | case2 a b cs joined ih =>
    have miss : matchItems wordEnd (a :: b :: cs) = none := by
      simpa [wordEnd, matchItems] using joined
    rw [partWords, if_neg joined, ih, replaceAll_miss miss]
  | case3 cs short =>
    cases cs with
    | nil => simp [partWords, replaceAll]
    | cons a rest =>
      cases rest with
      | nil =>
        have miss : matchItems wordEnd [a] = none := by simp [wordEnd, matchItems]
        simp [partWords, replaceAll_miss miss, replaceAll]
      | cons b cs => exact absurd rfl (short a b cs)

end ViewRouting.Naming
