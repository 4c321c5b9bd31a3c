import Mathlib.Data.List.SplitBy
import ViewRouting.Proofs.Replacement

/-! The snake case of a text, place by place. Runs of gaps become single underscores, an underscore
stands wherever a word begins behind another, which is seen from three characters, and runs of
underscores become single ones. The passes that search the text from left to right find every such
place, and none of them twice. -/

namespace ViewRouting.Naming
open Text

/-- One underscore for each longest run of characters that satisfy `p`. -/
def condensed (p : Char → Bool) (cs : List Char) : List Char :=
  (cs.splitBy fun a b => p a && p b).flatMap fun part => if part.all p then ['_'] else part

/-- Whether a word begins at the second character: it is a capital behind a small letter or digit,
or a capital between a capital and a small letter. -/
def isSeam : List Char → Bool
  | a :: b :: rest =>
    (a.isLower || a.isDigit) && b.isUpper || a.isUpper && b.isUpper && rest.head?.any Char.isLower
  | _ => false

/-- Every character of a text, and an underscore behind it where a word begins. -/
def seamed (cs : List Char) : List Char :=
  cs.tails.flatMap fun tail => tail.take 1 ++ if isSeam tail then ['_'] else []

/-! Runs. -/

section Runs
variable {p : Char → Bool} {c : Char} {cs : List Char}

theorem condensed_run (h : p c) : condensed p (c :: cs) = '_' :: condensed p (cs.dropWhile p) := by
  have held := forall_mem_run cs h
  have whole : (c :: cs.takeWhile p).splitBy (fun a b => p a && p b) = [c :: cs.takeWhile p] := by
    apply List.splitBy_of_isChain (by simp)
    apply List.Pairwise.isChain
    exact List.pairwise_of_forall_mem_list fun a ha b hb => by simp [held a ha, held b hb]
  have split : (c :: cs).splitBy (fun a b => p a && p b) =
      (c :: cs.takeWhile p) :: (cs.dropWhile p).splitBy fun a b => p a && p b := by
    have cut : c :: cs = (c :: cs.takeWhile p) ++ cs.dropWhile p := by simp
    rw [cut, List.splitBy_append, whole, List.singleton_append]
    intro x _ y hy
    have start := List.head?_dropWhile_not p cs
    rw [Option.mem_def] at hy
    simp only [hy] at start
    simp [start]
  have all : (c :: cs.takeWhile p).all p = true := List.all_eq_true.mpr held
  rw [condensed, split, List.flatMap_cons, if_pos all]
  rfl

theorem condensed_other (h : p c = false) : condensed p (c :: cs) = c :: condensed p cs := by
  have split : (c :: cs).splitBy (fun a b => p a && p b) =
      [c] :: cs.splitBy fun a b => p a && p b := by
    have cut : c :: cs = [c] ++ cs := rfl
    rw [cut, List.splitBy_append (by simp [h])]
    rfl
  rw [condensed, split, List.flatMap_cons]
  simp [h, condensed]

end Runs

theorem bridge_eq_condensed (p : Char → Bool) (cs : List Char) :
    bridge p false cs = condensed p cs := by
  induction cs using run_induction (p := p) with
  | nil => rfl
  | run c cs hc ih => simp [bridge, hc, condensed_run, bridge_true, ih]
  | other c cs hc ih => simp [bridge, hc, condensed_other, ih]

/-! Words. -/

theorem seamed_nil : seamed [] = [] := rfl

theorem seamed_cons (c : Char) (cs : List Char) :
    seamed (c :: cs) = c :: ((if isSeam (c :: cs) then ['_'] else []) ++ seamed cs) := by
  simp [seamed]

theorem seamed_append {stretch rest : List Char}
    (h : ∀ c ds, c :: ds <:+ stretch → isSeam (c :: ds ++ rest) = false) :
    seamed (stretch ++ rest) = stretch ++ seamed rest := by
  induction stretch with
  | nil => rfl
  | cons c cs ih =>
    have later := ih fun d ds hd => h d ds (hd.trans (List.suffix_cons c cs))
    have here := h c cs List.suffix_rfl
    rw [List.cons_append] at here ⊢
    simp [seamed_cons, here, later]

theorem endsWord_upper {c : Char} (h : c.isUpper) : endsWord c = false :=
  forall_ascii (p := fun c => c.isUpper → endsWord c = false) (by decide)
    (isWordChar_ascii (isWordChar_upper h)) h

theorem partWords_skip {c : Char} (h : endsWord c = false) (cs : List Char) :
    partWords (c :: cs) = c :: partWords cs := by
  cases cs with
  | nil => rfl
  | cons d ds => simp [partWords, h]

theorem partWords_cons (c : Char) (cs : List Char) :
    partWords (c :: cs) =
      c :: ((if endsWord c && cs.head?.any Char.isUpper then ['_'] else []) ++ partWords cs) := by
  cases cs with
  | nil => simp [partWords]
  | cons d ds =>
    rw [partWords]
    split
    · next parted =>
      simp only [Bool.and_eq_true] at parted
      simp [parted, partWords_skip (endsWord_upper parted.2)]
    · next joined => simp [joined]

theorem partWords_append {stretch : List Char} (h : ∀ c ∈ stretch, endsWord c = false)
    (rest : List Char) : partWords (stretch ++ rest) = stretch ++ partWords rest := by
  induction stretch with
  | nil => rfl
  | cons c cs ih =>
    have later := ih fun d hd => h d (by simp [hd])
    rw [List.cons_append, partWords_skip (h c (by simp)), later, List.cons_append]

theorem isSeam_upper {c : Char} (h : c.isUpper) (cs : List Char) :
    isSeam (c :: cs) = (cs.head?.any Char.isUpper && cs.tail.head?.any Char.isLower) := by
  have ends : (c.isLower || c.isDigit) = false := endsWord_upper h
  cases cs with
  | nil => rfl
  | cons d ds => simp [isSeam, ends, h]

theorem isSeam_other {c : Char} (h : c.isUpper = false) (cs : List Char) :
    isSeam (c :: cs) = (endsWord c && cs.head?.any Char.isUpper) := by
  cases cs with
  | nil => simp [isSeam]
  | cons d ds => simp [isSeam, endsWord, h]

theorem seamed_capitals {caps rest : List Char} (upper : ∀ c ∈ caps, c.isUpper)
    (wordless : caps.length ≤ 1 ∨ ∀ c ∈ rest.head?, c.isLower = false)
    (apart : (rest.head?.any Char.isUpper && rest.tail.head?.any Char.isLower) = false) :
    seamed (caps ++ rest) = caps ++ seamed rest := by
  apply seamed_append
  intro c ds hd
  rw [List.cons_append, isSeam_upper (upper c (hd.mem (by simp)))]
  match ds with
  | [] => exact apart
  | [d] =>
    have small := wordless_pair wordless hd
    cases rest with
    | nil => simp
    | cons e es => simp [small e rfl]
  | d :: e :: ds =>
    have he : e.isLower = false := not_isLower_upper (upper e (hd.mem (by simp)))
    simp [he]

theorem seamed_partRun {run : List Char} (upper : ∀ c ∈ run, c.isUpper) {c : Char}
    (next : c.isUpper = false) (cs : List Char) :
    seamed (run.reverse ++ c :: cs) = partRun c run ++ seamed (c :: cs) := by
  have together (wordless : run.length ≤ 1 ∨ c.isLower = false) :
      seamed (run.reverse ++ c :: cs) = run.reverse ++ seamed (c :: cs) :=
    seamed_capitals (fun d hd => upper d (List.mem_reverse.mp hd)) (by simpa using wordless)
      (by simp [next])
  match run with
  | [] => exact together (by simp)
  | [b] => exact together (by simp)
  | b :: a :: run =>
    rw [partRun]
    split
    · next small =>
      have ha := upper a (by simp)
      have hb := upper b (by simp)
      have before : seamed (run.reverse ++ a :: b :: c :: cs) =
          run.reverse ++ seamed (a :: b :: c :: cs) :=
        seamed_capitals (fun d hd => upper d (by simp [List.mem_reverse.mp hd]))
          (.inr (by simpa using not_isLower_upper ha)) (by simp [not_isLower_upper hb])
      simp [before, seamed_cons a, seamed_cons b, isSeam_upper ha, isSeam_upper hb, hb, small, next]
    · next other => exact together (.inr (by simpa using other))

theorem partWords_partAcronyms (run cs : List Char) (upper : ∀ c ∈ run, c.isUpper) :
    partWords (partAcronyms run cs) = seamed (run.reverse ++ cs) := by
  -- The induction is on the text for every run that is being read, which stands before the rest.
  induction cs generalizing run with
  | nil =>
    have words : ∀ c ∈ run.reverse, endsWord c = false := fun c hc =>
      endsWord_upper (upper c (List.mem_reverse.mp hc))
    have whole : seamed (run.reverse ++ []) = run.reverse ++ seamed [] :=
      seamed_capitals (fun c hc => upper c (List.mem_reverse.mp hc)) (by simp) rfl
    calc partWords (partAcronyms run [])
      _ = partWords (run.reverse ++ []) := by rw [partAcronyms, List.append_nil]
      _ = run.reverse := by rw [partWords_append words, partWords, List.append_nil]; simp
      _ = seamed (run.reverse ++ []) := by rw [whole, seamed_nil, List.append_nil]
  | cons c cs ih =>
    rw [partAcronyms]
    cases hc : c.isUpper with
    | true => simpa using ih (c :: run) (by simpa [hc] using upper)
    | false =>
      have within : ∀ d ∈ partRun c run, endsWord d = false := by
        intro d hd
        rcases (partRun_respelled c run).new d hd with h | rfl
        · exact endsWord_upper (upper d (List.mem_reverse.mp h))
        · decide
      have first := (partAcronyms_respelled [] cs).head
      simp only [Bool.false_eq_true, if_false]
      rw [partWords_append within, partWords_cons, ih [] (by simp), first, seamed_partRun upper hc,
        seamed_cons, isSeam_other hc]
      rfl

example : seamed "HTTPServer2Go".toList = "HTTP_Server2_Go".toList := by decide

/-- The snake case of a text is the lower case of what stands at its places, gaps and underscores
condensed; and of what four searches through the text write, one after another. -/
theorem snakeCase_pointwise (s : String) :
    snakeCase s = Text.lower (String.ofList
      (condensed (· = '_') (seamed (condensed isGap s.toList)))) ∧
    snakeCase s = Text.lower (String.ofList
      (replaceAll [.run (· = '_')] (fun _ => ['_'])
        (replaceAll wordEnd underscored
          (replaceAll acronym underscored
            (replaceAll [.run isGap] (fun _ => ['_']) s.toList))))) := by
  constructor
  · have parted := partWords_partAcronyms [] (condensed isGap s.toList) (by simp)
    rw [snakeCase, snakeChars, bridge_eq_condensed, bridge_eq_condensed, parted]
    rfl
  · have parted := partAcronyms_eq_replaceAll [] (bridge isGap false s.toList) (by simp)
    rw [snakeCase, snakeChars, parted, partWords_eq_replaceAll, bridge_eq_replaceAll,
      bridge_eq_replaceAll]
    rfl

end ViewRouting.Naming
