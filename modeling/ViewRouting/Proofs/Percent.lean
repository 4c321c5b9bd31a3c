import ViewRouting.Proofs.HelperNames
import ViewRouting.Proofs.Segments
import ViewRouting.Text

/-! Percent forms read back. The form of a text spells the bytes of the text, in a path component and
in a query field alike, so that texts with the same form are the same. Forms are made of few
characters, and none of those that part paths and queries is among them. -/

namespace ViewRouting.Text

def hexValue (c : Char) : Nat :=
  if c.isDigit then c.toNat - 0x30 else c.toNat + 10 - 'A'.toNat

/-- The bytes that a form spells. A plus sign, which components never hold, is a space. -/
def spelled : List Char → List UInt8
  | '%' :: high :: low :: cs => UInt8.ofNat (16 * hexValue high + hexValue low) :: spelled cs
  | '+' :: cs => 0x20 :: spelled cs
  | c :: cs => c.val.toUInt8 :: spelled cs
  | [] => []

def Spells (form : Char → List Char) : Prop :=
  ∀ c cs, spelled (form c ++ cs) = String.utf8EncodeChar c ++ spelled cs

theorem hexDigit_value : ∀ d < 16, hexValue (hexDigit 'A' d) = d := by
  decide

theorem hexDigit_isAlphanum : ∀ d < 16, (hexDigit 'A' d).isAlphanum := by
  decide

theorem spelled_percentByte (b : UInt8) (cs : List Char) :
    spelled (percentByte b ++ cs) = b :: spelled cs := by
  have bound := b.toNat_lt
  have high := hexDigit_value (b.toNat / 16) (by omega)
  have low := hexDigit_value (b.toNat % 16) (by omega)
  have value : 16 * (b.toNat / 16) + b.toNat % 16 = b.toNat := by omega
  rw [percentByte, List.cons_append, List.cons_append, List.cons_append, List.nil_append, spelled,
    high, low, value, UInt8.ofNat_toNat]

theorem spelled_percentBytes (bytes : List UInt8) (cs : List Char) :
    spelled (bytes.flatMap percentByte ++ cs) = bytes ++ spelled cs := by
  induction bytes with
  | nil => rfl
  | cons b bytes ih =>
    rw [List.flatMap_cons, List.append_assoc, spelled_percentByte, ih, List.cons_append]

theorem spelled_percentChar (c : Char) (cs : List Char) :
    spelled (percentChar c ++ cs) = String.utf8EncodeChar c ++ spelled cs :=
  spelled_percentBytes _ cs

theorem utf8_ascii {c : Char} (ascii : c.toNat < 0x80) :
    String.utf8EncodeChar c = [c.val.toUInt8] := by
  apply String.utf8EncodeChar_eq_singleton
  simp only [Char.utf8Size_eq_one_iff, UInt32.le_iff_toNat_le]
  exact Nat.le_of_lt_succ ascii

theorem spelled_kept {c : Char} (ascii : c.toNat < 0x80) (percent : c ≠ '%') (plus : c ≠ '+')
    (cs : List Char) : spelled (c :: cs) = String.utf8EncodeChar c ++ spelled cs := by
  rw [utf8_ascii ascii, spelled]
  · rfl
  · exact fun _ _ _ h => absurd h percent
  · exact plus

theorem keptInComponent_ascii {c : Char} (h : keptInComponent c) : c.toNat < 0x80 := by
  have marks : "-_.!~*'()".toList.all (fun d => decide (d.toNat < 0x80)) := by decide
  rw [List.all_eq_true] at marks
  simp only [keptInComponent, Bool.or_eq_true, List.contains_iff_mem] at h
  exact h.elim Naming.isAlphanum_ascii fun mark => of_decide_eq_true (marks c mark)

theorem keptInField_ascii {c : Char} (h : keptInField c) : c.toNat < 0x80 := by
  have marks : "*-._".toList.all (fun d => decide (d.toNat < 0x80)) := by decide
  rw [List.all_eq_true] at marks
  simp only [keptInField, Bool.or_eq_true, List.contains_iff_mem] at h
  exact h.elim Naming.isAlphanum_ascii fun mark => of_decide_eq_true (marks c mark)

theorem componentChar_spells : Spells componentChar := by
  intro c cs
  rw [componentChar]
  split
  · next kept =>
    have percent : c ≠ '%' := by rintro rfl; exact absurd kept (by decide)
    have plus : c ≠ '+' := by rintro rfl; exact absurd kept (by decide)
    exact spelled_kept (keptInComponent_ascii kept) percent plus cs
  · exact spelled_percentChar c cs

theorem fieldChar_spells : Spells fieldChar := by
  intro c cs
  rw [fieldChar]
  split
  · next kept =>
    have percent : c ≠ '%' := by rintro rfl; exact absurd kept (by decide)
    have plus : c ≠ '+' := by rintro rfl; exact absurd kept (by decide)
    exact spelled_kept (keptInField_ascii kept) percent plus cs
  · split
    · next space =>
      subst space
      rfl
    · exact spelled_percentChar c cs

theorem Spells.injective {form : Char → List Char} (h : Spells form) {s t : String}
    (same : s.toList.flatMap form = t.toList.flatMap form) : s = t := by
  have bytes (cs : List Char) :
      spelled (cs.flatMap form) = cs.flatMap String.utf8EncodeChar := by
    induction cs with
    | nil => rfl
    | cons c cs ih => rw [List.flatMap_cons, h, ih, List.flatMap_cons]
  have encoded : s.toList.utf8Encode = t.toList.utf8Encode := by
    rw [List.utf8Encode, List.utf8Encode, ← bytes, ← bytes, same]
  rw [← String.toByteArray_inj, ← String.ofList_toList (s := s), ← String.ofList_toList (s := t),
    String.toByteArray_ofList, String.toByteArray_ofList, encoded]

theorem component_injective {s t : String} (h : component s = component t) : s = t :=
  componentChar_spells.injective (String.ofList_injective h)

theorem field_injective {s t : String} (h : field s = field t) : s = t :=
  fieldChar_spells.injective (String.ofList_injective h)

/-! Characters of forms. -/

theorem mem_percentChar {c d : Char} (h : d ∈ percentChar c) : d = '%' ∨ d.isAlphanum := by
  obtain ⟨b, -, hd⟩ := List.mem_flatMap.mp h
  have bound := b.toNat_lt
  simp only [percentByte, List.mem_cons, List.not_mem_nil, or_false] at hd
  rcases hd with rfl | rfl | rfl
  · exact .inl rfl
  · exact .inr (hexDigit_isAlphanum _ (by omega))
  · exact .inr (hexDigit_isAlphanum _ (by omega))

theorem mem_component {s : String} {d : Char} (h : d ∈ (component s).toList) :
    d = '%' ∨ keptInComponent d := by
  rw [component, String.toList_ofList] at h
  obtain ⟨c, -, hd⟩ := List.mem_flatMap.mp h
  rw [componentChar] at hd
  split at hd
  · next kept =>
    rw [List.mem_singleton.mp hd]
    exact .inr kept
  · exact (mem_percentChar hd).imp_right fun h => by simp [keptInComponent, h]

theorem mem_field {s : String} {d : Char} (h : d ∈ (field s).toList) :
    d = '%' ∨ d = '+' ∨ keptInField d := by
  rw [field, String.toList_ofList] at h
  obtain ⟨c, -, hd⟩ := List.mem_flatMap.mp h
  rw [fieldChar] at hd
  split at hd
  · next kept =>
    rw [List.mem_singleton.mp hd]
    exact .inr (.inr kept)
  · split at hd
    · exact .inr (.inl (List.mem_singleton.mp hd))
    · exact (mem_percentChar hd).imp_right fun h => .inr (by simp [keptInField, h])

theorem component_clean (s : String) : '/' ∉ (component s).toList ∧ '?' ∉ (component s).toList := by
  constructor
  · exact fun h => absurd (mem_component h) (by decide)
  · exact fun h => absurd (mem_component h) (by decide)

theorem field_clean (s : String) :
    '?' ∉ (field s).toList ∧ '&' ∉ (field s).toList ∧ '=' ∉ (field s).toList := by
  refine ⟨?_, ?_, ?_⟩
  · exact fun h => absurd (mem_field h) (by decide)
  · exact fun h => absurd (mem_field h) (by decide)
  · exact fun h => absurd (mem_field h) (by decide)

theorem component_eq_empty {s : String} : component s = "" ↔ s = "" := by
  constructor
  · exact fun h => component_injective h
  · rintro rfl
    rfl

/-! Queries. -/

def assignment (f : String × String) : String :=
  field f.1 ++ "=" ++ field f.2

theorem query_eq (fields : List (String × String)) :
    query fields = join "&" (fields.map assignment) := rfl

theorem assignment_injective {f g : String × String} (h : assignment f = assignment g) : f = g := by
  have parts (f : String × String) : split '=' (assignment f) = [field f.1, field f.2] := by
    have joined : assignment f = join (String.singleton '=') [field f.1, field f.2] := by
      simp [assignment, join]
    rw [joined]
    apply split_join _ _ (by simp)
    intro p hp
    simp only [List.mem_cons, List.not_mem_nil, or_false] at hp
    rcases hp with rfl | rfl
    · exact (field_clean f.1).2.2
    · exact (field_clean f.2).2.2
  have same := parts f
  rw [h, parts g] at same
  simp only [List.cons.injEq, and_true] at same
  exact Prod.ext (field_injective same.1.symm) (field_injective same.2.symm)

theorem assignment_clean (f : String × String) :
    '?' ∉ (assignment f).toList ∧ '&' ∉ (assignment f).toList ∧ assignment f ≠ "" := by
  obtain ⟨question, amp, -⟩ := field_clean f.1
  obtain ⟨question', amp', -⟩ := field_clean f.2
  refine ⟨by simp [assignment, question, question'], by simp [assignment, amp, amp'], ?_⟩
  intro h
  have := congrArg String.toList h
  simp [assignment] at this

theorem query_injective {fs gs : List (String × String)} (h : query fs = query gs) : fs = gs := by
  have parts (fs : List (String × String)) : pieces '&' (query fs) = fs.map assignment := by
    rw [query_eq]
    apply pieces_join '&'
    intro p hp
    obtain ⟨f, -, rfl⟩ := List.mem_map.mp hp
    exact (assignment_clean f).2
  have same : fs.map assignment = gs.map assignment := by rw [← parts, ← parts, h]
  exact List.map_injective_iff.mpr (fun _ _ => assignment_injective) same

theorem query_clean (fields : List (String × String)) : '?' ∉ (query fields).toList := by
  rw [query_eq, ← List.count_eq_zero, count_join '?' (by decide), List.count_eq_zero]
  intro h
  obtain ⟨s, hs, question⟩ := List.mem_flatMap.mp h
  obtain ⟨f, -, rfl⟩ := List.mem_map.mp hs
  exact (assignment_clean f).1 question

end ViewRouting.Text
