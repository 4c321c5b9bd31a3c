import Mathlib.Data.List.Chain
import ViewRouting.Proofs.Lowering

/-! The form of a text in snake case: no capital, no gap and no two underscores side by side. Every
snake case has it, because lower-casing brings none of these back, and a text that has it is its own
snake case. -/

namespace ViewRouting.Naming
open Text

def Single (a b : Char) : Prop :=
  ¬(a = '_' ∧ b = '_')

structure SnakeForm (cs : List Char) : Prop where
  capital : ∀ c ∈ cs, c.isUpper = false
  gap : ∀ c ∈ cs, isGap c = false
  single : cs.IsChain Single

/-! A text of this form is left as it is. -/

theorem bridge_of_free {p : Char → Bool} {cs : List Char} (free : ∀ c ∈ cs, p c = false) :
    bridge p false cs = cs := by
  induction cs with
  | nil => rfl
  | cons c cs ih =>
    have rest := ih fun d hd => free d (by simp [hd])
    simp [bridge, free c (by simp), rest]

theorem partAcronyms_of_free {cs : List Char} (free : ∀ c ∈ cs, c.isUpper = false) :
    partAcronyms [] cs = cs := by
  induction cs with
  | nil => rfl
  | cons c cs ih =>
    have rest := ih fun d hd => free d (by simp [hd])
    simp [partAcronyms, partRun, free c (by simp), rest]

theorem partWords_of_free {cs : List Char} (free : ∀ c ∈ cs, c.isUpper = false) :
    partWords cs = cs := by
  induction cs using partWords.induct with
  | case1 a b cs parted ih => simp [free b (by simp)] at parted
  | case2 a b cs joined ih => rw [partWords, if_neg joined, ih fun c hc => free c (by simp [hc])]
  | case3 cs short =>
    rw [partWords]
    exact short

theorem bridge_of_single {inRun : Bool} {cs : List Char} (single : cs.IsChain Single)
    (start : inRun → ∀ c ∈ cs.head?, c ≠ '_') : bridge (· = '_') inRun cs = cs := by
  induction cs generalizing inRun with
  | nil => rfl
  | cons c cs ih =>
    obtain ⟨next, rest⟩ := List.isChain_cons.mp single
    by_cases bar : c = '_'
    · have first : inRun = false := by
        by_contra later
        exact start (by simpa using later) c rfl bar
      have stop : ∀ d ∈ cs.head?, d ≠ '_' := fun d hd both => next d hd ⟨bar, both⟩
      simp [bridge, bar, first, ih rest fun _ => stop]
    · simp [bridge, bar, ih rest]

theorem snakeChars_of_form {cs : List Char} (h : SnakeForm cs) : snakeChars cs = cs := by
  rw [snakeChars, bridge_of_free h.gap, partAcronyms_of_free h.capital,
    partWords_of_free h.capital, bridge_of_single h.single (by simp)]

/-! What the passes write. -/

theorem bridge_free {p : Char → Bool} (bar : p '_' = false) (inRun : Bool) (cs : List Char) :
    ∀ d ∈ bridge p inRun cs, p d = false := by
  induction cs generalizing inRun with
  | nil => simp [bridge]
  | cons c cs ih =>
    intro d hd
    cases hc : p c with
    | true =>
      have split : d = '_' ∨ d ∈ bridge p true cs := by
        cases inRun <;> simp_all [bridge]
      rcases split with rfl | hd
      · exact bar
      · exact ih true d hd
    | false =>
      have split : d = c ∨ d ∈ bridge p false cs := by simpa [bridge, hc] using hd
      rcases split with rfl | hd
      · exact hc
      · exact ih false d hd

theorem bridge_single (inRun : Bool) (cs : List Char) :
    (bridge (· = '_') inRun cs).IsChain Single ∧
      (inRun → ∀ c ∈ (bridge (· = '_') inRun cs).head?, c ≠ '_') := by
  induction cs generalizing inRun with
  | nil => simp [bridge]
  | cons c cs ih =>
    obtain ⟨run, stop⟩ := ih true
    by_cases bar : c = '_'
    · cases inRun with
      | true => simpa [bridge, bar] using ⟨run, stop rfl⟩
      | false =>
        have chain : ('_' :: bridge (· = '_') true cs).IsChain Single :=
          List.isChain_cons.mpr ⟨fun d hd both => stop rfl d hd both.2, run⟩
        simpa [bridge, bar] using chain
    · have chain : (c :: bridge (· = '_') false cs).IsChain Single :=
        List.isChain_cons.mpr ⟨fun d _ both => bar both.1, (ih false).1⟩
      simpa [bridge, bar] using chain

theorem snakeChars_gap (cs : List Char) : ∀ c ∈ snakeChars cs, isGap c = false := by
  have bar : isGap '_' = false := by decide
  have first := bridge_free (p := isGap) bar false cs
  have parted := (partAcronyms_respelled [] (bridge isGap false cs)).trans (partWords_respelled _)
  intro c hc
  rcases mem_bridge _ false _ c hc with hc | rfl
  · rcases parted.new c hc with hc | rfl
    · exact first c (by simpa using hc)
    · exact bar
  · exact bar

/-! Lower-casing. -/

def isMark (c : Char) : Bool :=
  isGap c || c = '_'

theorem small_unmarked :
    (Lowercase.capitals.all fun r => r.codes.all fun n => !isMark (Char.ofNat (r.small n))) =
      true := by
  decide +kernel

theorem lowerChar_mark {c d : Char} (h : d ∈ lowerChar c) (mark : isMark d) : d = c := by
  rw [lowerChar] at h
  split at h
  · next ascii =>
    have all : ∀ n < 0x80,
        isMark (Char.ofNat n).toLower → (Char.ofNat n).toLower = Char.ofNat n := by
      decide +kernel
    rw [List.mem_singleton.mp h] at mark ⊢
    exact forall_ascii (p := fun c => isMark c.toLower → c.toLower = c) all ascii mark
  · split at h
    · have unmarked : ∀ d ∈ ['i', '\u0307'], isMark d = false :=
        List.forall_mem_cons.mpr ⟨by decide, List.forall_mem_singleton.mpr (by decide)⟩
      cases mark.symm.trans (unmarked d h)
    · cases found : Lowercase.capitals.find? (·.holds c.toNat) with
      | some r =>
        rw [found] at h
        have held : r.holds c.toNat := by simpa using List.find?_some found
        have all := List.all_eq_true.mp small_unmarked r (List.mem_of_find?_eq_some found)
        have unmarked := List.all_eq_true.mp all c.toNat (Lowercase.mem_codes held)
        rw [List.mem_singleton.mp h] at mark
        simp only [Lowercase.Run.small] at unmarked
        simp [mark] at unmarked
      | none =>
        rw [found] at h
        exact List.mem_singleton.mp h

def blankCodes : List Nat :=
  List.range' 0x9 5 ++ [0x20, 0xA0, 0x1680] ++ List.range' 0x2000 11
    ++ [0x2028, 0x2029, 0x202F, 0x205F, 0x3000, 0xFEFF]

theorem blank_code {c : Char} (h : isBlank c) : c.toNat ∈ blankCodes := by
  simp only [isBlank, Bool.or_eq_true, Bool.and_eq_true, decide_eq_true_eq, beq_iff_eq] at h
  simp only [blankCodes, List.mem_append, List.mem_range'_1, List.mem_cons, List.not_mem_nil]
  omega

theorem mark_settled {c : Char} (h : isMark c) : Settled c := by
  simp only [isMark, isGap, Bool.or_eq_true, decide_eq_true_eq] at h
  rcases h with (blank | rfl) | rfl
  · have all : ∀ n ∈ blankCodes, Settled (Char.ofNat n) := by decide +kernel
    rw [← Char.ofNat_toNat c]
    exact all c.toNat (blank_code blank)
  · decide
  · decide

theorem lowerFrom_cons (inWord : Bool) (c : Char) (cs : List Char) :
    ∃ piece next, lowerFrom inWord (c :: cs) = piece ++ lowerFrom next cs ∧ piece ≠ [] ∧
      (isMark c → piece = [c]) ∧ ∀ d ∈ piece, isMark d → d = c := by
  by_cases sigma : c = 'Σ'
  · have unmarked : ∀ b : Bool, isMark (if b then 'ς' else 'σ') = false := by decide
    refine ⟨[if inWord && !startsCased cs then 'ς' else 'σ'], _, by rw [lowerFrom, if_pos sigma],
      by simp, fun mark => absurd sigma (mark_settled mark).1, ?_⟩
    intro d hd mark
    rw [List.mem_singleton.mp hd, unmarked] at mark
    cases mark
  · refine ⟨lowerChar c, _, by rw [lowerFrom, if_neg sigma], ?_, ?_, fun d => lowerChar_mark⟩
    · rw [lowerChar]
      split
      · simp
      · split
        · simp
        · split <;> simp
    · exact fun mark => (mark_settled mark).2

theorem lowerFrom_mark (inWord : Bool) (cs : List Char) :
    ∀ d ∈ lowerFrom inWord cs, isMark d → d ∈ cs := by
  induction cs generalizing inWord with
  | nil => simp [lowerFrom]
  | cons c cs ih =>
    obtain ⟨piece, next, split, -, -, own⟩ := lowerFrom_cons inWord c cs
    intro d hd mark
    rw [split] at hd
    rcases List.mem_append.mp hd with hd | hd
    · simp [own d hd mark]
    · simp [ih next d hd mark]

theorem lowerFrom_eq_nil {inWord : Bool} {cs : List Char} : lowerFrom inWord cs = [] ↔ cs = [] := by
  cases cs with
  | nil => simp [lowerFrom]
  | cons c cs =>
    obtain ⟨piece, next, split, full, -, -⟩ := lowerFrom_cons inWord c cs
    simp [split, full]

theorem lowerFrom_head {inWord : Bool} {cs : List Char} {d : Char} (mark : isMark d) :
    d ∈ (lowerFrom inWord cs).head? ↔ d ∈ cs.head? := by
  cases cs with
  | nil => rfl
  | cons c cs =>
    obtain ⟨piece, next, split, full, kept, own⟩ := lowerFrom_cons inWord c cs
    rw [split, List.head?_append_of_ne_nil piece full]
    constructor
    · intro h
      exact congrArg some (own d (List.mem_of_head? h) mark).symm
    · intro h
      obtain rfl : c = d := by simpa using h
      rw [kept mark]
      rfl

theorem lowerFrom_last {inWord : Bool} {cs : List Char} {d : Char} (mark : isMark d) :
    d ∈ (lowerFrom inWord cs).getLast? ↔ d ∈ cs.getLast? := by
  induction cs generalizing inWord with
  | nil => rfl
  | cons c cs ih =>
    obtain ⟨piece, next, split, full, kept, own⟩ := lowerFrom_cons inWord c cs
    rw [split]
    cases cs with
    | nil =>
      rw [lowerFrom, List.append_nil]
      constructor
      · intro h
        exact congrArg some (own d (List.mem_of_getLast? h) mark).symm
      · intro h
        obtain rfl : c = d := by simpa using h
        rw [kept mark]
        rfl
    | cons c' cs =>
      have more : lowerFrom next (c' :: cs) ≠ [] := by simp [lowerFrom_eq_nil]
      rw [List.getLast?_append_of_ne_nil _ more, List.getLast?_cons_cons]
      exact ih

theorem lowerFrom_single (inWord : Bool) {cs : List Char} (single : cs.IsChain Single) :
    (lowerFrom inWord cs).IsChain Single := by
  induction cs generalizing inWord with
  | nil => exact single
  | cons c cs ih =>
    obtain ⟨next, rest⟩ := List.isChain_cons.mp single
    obtain ⟨piece, state, split, -, bar, own⟩ := lowerFrom_cons inWord c cs
    have origin : ∀ d ∈ piece, d = '_' → c = '_' := by
      rintro d hd rfl
      exact (own '_' hd (by decide)).symm
    have chain : piece.IsChain Single := by
      by_cases hc : c = '_'
      · rw [bar (hc ▸ (by decide : isMark '_'))]
        exact List.isChain_singleton _
      · apply List.Pairwise.isChain
        exact List.pairwise_of_forall_mem_list fun a ha _ _ both => hc (origin a ha both.1)
    rw [split, List.isChain_append]
    refine ⟨chain, ih state rest, ?_⟩
    rintro x hx y hy ⟨rfl, rfl⟩
    have follows := (lowerFrom_head (by decide)).mp hy
    exact next '_' follows ⟨origin '_' (List.mem_of_getLast? hx) rfl, rfl⟩

/-! The snake case of a text. -/

theorem snakeCase_form (s : String) : SnakeForm (snakeCase s).toList := by
  rw [snakeCase, Text.lower, String.toList_ofList, String.toList_ofList]
  constructor
  · intro c hc
    have settled := lowerFrom_settled _ _ c hc
    cases upper : c.isUpper with
    | false => rfl
    | true =>
      have moved : ∀ n < 0x80, (Char.ofNat n).isUpper → ¬Settled (Char.ofNat n) := by decide
      have ascii := isWordChar_ascii (isWordChar_upper upper)
      exact absurd settled (forall_ascii (p := fun c => c.isUpper → ¬Settled c) moved ascii upper)
  · intro c hc
    cases gap : isGap c with
    | false => rfl
    | true =>
      have kept := lowerFrom_mark false _ c hc (by simp [isMark, gap])
      exact gap.symm.trans (snakeChars_gap s.toList c kept)
  · exact lowerFrom_single false (bridge_single false _).1

/-- No snake case holds a capital, a blank, a hyphen or two underscores side by side, and each is
its own snake case. -/
theorem snakeCase_normal (s : String) :
    (∀ c ∈ (snakeCase s).toList, c.isUpper = false ∧ Text.isBlank c = false ∧ c ≠ '-') ∧
      ¬['_', '_'] <:+: (snakeCase s).toList ∧
      snakeCase (snakeCase s) = snakeCase s := by
  have form := snakeCase_form s
  refine ⟨?_, ?_, ?_⟩
  · intro c hc
    have gap := form.gap c hc
    simp only [isGap, Bool.or_eq_false_iff, decide_eq_false_iff_not] at gap
    exact ⟨form.capital c hc, gap⟩
  · intro double
    have apart : ['_', '_'].IsChain Single := form.single.infix double
    simp [Single] at apart
  · calc snakeCase (snakeCase s)
      _ = Text.lower (snakeCase s) := by
        rw [snakeCase, snakeChars_of_form form, String.ofList_toList]
      _ = snakeCase s := by rw [snakeCase, Text.lower_lower]

end ViewRouting.Naming
