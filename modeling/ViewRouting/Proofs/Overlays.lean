import Mathlib.Data.List.Induction
import ViewRouting.Options
import ViewRouting.Proofs.Records

/-! Laying records over one another. A field keeps the place that its name and its first insertion
give it, so that it does not matter in which groups the fields of several records are inserted:
overlays are associative, the order of the fields included. The same holds of group options. -/

namespace ViewRouting

namespace Record

/-! Names that spell an index. -/

def digitValue (n : Nat) (c : Char) : Nat :=
  10 * n + (c.toNat - 48)

theorem digitChar_digit {c : Char} (h : c.isDigit) :
    c.toNat - 48 < 10 ∧ Nat.digitChar (c.toNat - 48) = c := by
  have range : 48 ≤ c.toNat ∧ c.toNat ≤ 57 := by
    simpa [Char.isDigit, UInt32.le_iff_toNat_le] using h
  refine ⟨by omega, Char.toNat_inj.mp ?_⟩
  rw [Nat.toNat_digitChar_of_lt_ten (by omega)]
  omega

theorem toDigits_foldl {cs : List Char} (digits : ∀ c ∈ cs, c.isDigit) {n : Nat} (some : 0 < n) :
    Nat.toDigits 10 (cs.foldl digitValue n) = Nat.toDigits 10 n ++ cs := by
  induction cs generalizing n with
  | nil => simp
  | cons c cs ih =>
    obtain ⟨small, char⟩ := digitChar_digit (digits c List.mem_cons_self)
    have more : 0 < digitValue n c := by
      rw [digitValue]
      omega
    have last : Nat.toDigits 10 (digitValue n c) = Nat.toDigits 10 n ++ [c] := by
      rw [digitValue, ← Nat.toDigits_append_toDigits (by decide) some small,
        Nat.toDigits_of_lt_base small, char]
    rw [List.foldl_cons, ih (fun d hd => digits d (List.mem_cons_of_mem c hd)) more, last]
    simp

theorem index?_digits {name : String} {i : Nat} (h : index? name = some i) :
    name.toList = Nat.toDigits 10 i := by
  have value : (fun n (c : Char) => 10 * n + (c.toNat - 48)) = digitValue := rfl
  rw [index?, value] at h
  split at h
  · cases h
  · next c cs chars =>
    simp only [Bool.and_eq_true, Bool.or_eq_true, List.all_eq_true, bne_iff_ne, ne_eq,
      List.isEmpty_iff, Option.ite_none_right_eq_some] at h
    obtain ⟨⟨⟨digits, leading⟩, -⟩, value⟩ := h
    cases value
    obtain ⟨small, char⟩ := digitChar_digit (digits c List.mem_cons_self)
    have first : digitValue 0 c = c.toNat - 48 := by simp [digitValue]
    rw [chars, List.foldl_cons, first]
    by_cases zero : c.toNat - 48 = 0
    · have nought : c = '0' := by rw [← char, zero]; rfl
      obtain rfl : cs = [] := leading.resolve_left (not_not_intro nought)
      rw [List.foldl_nil, Nat.toDigits_of_lt_base small, char]
    · rw [toDigits_foldl (fun d hd => digits d (List.mem_cons_of_mem c hd))
        (Nat.pos_of_ne_zero zero), Nat.toDigits_of_lt_base small, char, List.singleton_append]

theorem index?_injective {name other : String} {i : Nat} (h : index? name = some i)
    (h' : index? other = some i) : name = other :=
  String.toList_injective ((index?_digits h).trans (index?_digits h').symm)

variable {α : Type}

/-! The three ways of an insertion. -/

def replace (r : Record α) (name : String) (v : α) : Record α :=
  r.map fun f => if f.1 == name then (name, v) else f

/-- The field `x` in the place that the index `i` gives it. -/
def placeAt (i : Nat) (x : String × α) (r : Record α) : Record α :=
  r.takeWhile (precedes i) ++ x :: r.dropWhile (precedes i)

theorem insert_known {r : Record α} {name : String} (known : name ∈ names r) (v : α) :
    insert r name v = replace r name v := by
  rw [insert, if_pos (any_names.mpr known), replace]

theorem insert_plain {r : Record α} {name : String} (new : name ∉ names r)
    (plain : index? name = none) (v : α) : insert r name v = r ++ [(name, v)] := by
  rw [insert, if_neg (mt any_names.mp new), plain]

theorem insert_index {r : Record α} {name : String} {i : Nat} (new : name ∉ names r)
    (spells : index? name = some i) (v : α) : insert r name v = placeAt i (name, v) r := by
  rw [insert, if_neg (mt any_names.mp new), spells]
  rfl

theorem mem_names_insert {r : Record α} {name : String} {v : α} {k : String} :
    k ∈ names (insert r name v) ↔ k = name ∨ k ∈ names r := by
  rw [← get?_isSome, get?_insert, ← get?_isSome]
  by_cases h : k = name <;> simp [h]

theorem replace_absent {r : Record α} {name : String} (absent : name ∉ names r) (v : α) :
    replace r name v = r := by
  have same : ∀ f ∈ r, (if f.1 == name then (name, v) else f) = f := by
    intro f hf
    have other : f.1 ≠ name := by
      rintro rfl
      exact absent (List.mem_map_of_mem hf)
    simp [other]
  exact (List.map_congr_left same).trans (List.map_id r)

theorem replace_append (r s : Record α) (name : String) (v : α) :
    replace (r ++ s) name v = replace r name v ++ replace s name v :=
  List.map_append

theorem replace_field {before after : Record α} {f : String × α}
    (distinct : Distinct (before ++ f :: after)) (v : α) :
    replace (before ++ f :: after) f.1 v = before ++ (f.1, v) :: after ∧
      f.1 ∉ names after := by
  have absent : f.1 ∉ names before ∧ f.1 ∉ names after := by
    rw [Distinct, names, List.map_append, List.map_cons, List.nodup_middle, List.nodup_cons]
      at distinct
    simpa [names, not_or] using distinct.1
  have cons : replace (f :: after) f.1 v = (f.1, v) :: replace after f.1 v := by simp [replace]
  rw [replace_append, cons, replace_absent absent.1, replace_absent absent.2]
  exact ⟨rfl, absent.2⟩

theorem replace_replace (r : Record α) {j k : String} (other : j ≠ k) (u v : α) :
    replace (replace r j u) k v = replace (replace r k v) j u := by
  simp only [replace, List.map_map]
  apply List.map_congr_left
  intro f _
  by_cases hj : f.1 = j <;> by_cases hk : f.1 = k <;> simp_all

theorem replace_placeAt (r : Record α) {j k : String} (other : j ≠ k) (i : Nat) (u v : α) :
    replace (placeAt i (j, u) r) k v = placeAt i (j, u) (replace r k v) := by
  have names : (precedes i ∘ fun f : String × α => if f.1 == k then (k, v) else f) =
      precedes i := by
    funext f
    by_cases h : f.1 = k <;> simp [h, precedes]
  rw [placeAt, replace, List.map_append, List.map_cons, if_neg (by simpa using other), placeAt,
    replace, List.takeWhile_map, List.dropWhile_map, names]

theorem placeAt_nil (i : Nat) (x : String × α) : placeAt i x [] = [x] := rfl

theorem placeAt_cons (i : Nat) (x f : String × α) (r : Record α) :
    placeAt i x (f :: r) = if precedes i f then f :: placeAt i x r else x :: f :: r := by
  cases h : precedes i f <;> simp [placeAt, h]

theorem placeAt_append (i : Nat) (x y : String × α) (plain : index? y.1 = none) (r : Record α) :
    placeAt i x (r ++ [y]) = placeAt i x r ++ [y] := by
  induction r with
  | nil => simp [placeAt_cons, placeAt_nil, precedes, plain]
  | cons f r ih =>
    rw [List.cons_append, placeAt_cons, placeAt_cons, ih]
    cases precedes i f <;> simp

theorem placeAt_placeAt {i j : Nat} (less : i < j) {x y : String × α} (hx : index? x.1 = some i)
    (hy : index? y.1 = some j) (r : Record α) :
    placeAt j y (placeAt i x r) = placeAt i x (placeAt j y r) := by
  have first : precedes j x = true := by simp [precedes, hx, less]
  have last : precedes i y = false := by simp [precedes, hy]; omega
  induction r with
  | nil => simp [placeAt_cons, placeAt_nil, first, last]
  | cons f r ih =>
    cases hi : precedes i f with
    | true =>
      have hj : precedes j f = true := by
        unfold precedes at hi ⊢
        split at hi <;> simp_all
        omega
      simp [placeAt_cons, hi, hj, ih]
    | false => cases hj : precedes j f <;> simp [placeAt_cons, hi, hj, first, last]

/-! Insertions of different names commute, unless both are put at the end. -/

theorem insert_comm_known {r : Record α} {j k : String} (other : j ≠ k) (known : k ∈ names r)
    (u v : α) : insert (insert r j u) k v = insert (insert r k v) j u := by
  rw [insert_known (mem_names_insert.mpr (.inr known)), insert_known known]
  have names_eq : names (replace r k v) = names r := names_replace r k v
  by_cases hj : j ∈ names r
  · rw [insert_known hj, insert_known (names_eq ▸ hj), replace_replace r other]
  · have absent : j ∉ names (replace r k v) := names_eq ▸ hj
    cases spells : index? j with
    | none =>
      rw [insert_plain hj spells, insert_plain absent spells, replace_append,
        replace_absent (r := [(j, u)]) (by simpa [names] using other.symm)]
    | some i => rw [insert_index hj spells, insert_index absent spells, replace_placeAt r other]

theorem insert_comm {r : Record α} {j k : String} (other : j ≠ k)
    (placed : k ∈ names r ∨ (index? k).isSome) (u v : α) :
    insert (insert r j u) k v = insert (insert r k v) j u := by
  by_cases hk : k ∈ names r
  · exact insert_comm_known other hk u v
  by_cases hj : j ∈ names r
  · exact (insert_comm_known other.symm hj v u).symm
  obtain ⟨i, spells⟩ := Option.isSome_iff_exists.mp (placed.resolve_left hk)
  have absent : k ∉ names (insert r j u) := by
    rw [mem_names_insert]
    exact not_or_intro other.symm hk
  have absent' : j ∉ names (insert r k v) := by
    rw [mem_names_insert]
    exact not_or_intro other hj
  rw [insert_index absent spells]
  cases spells' : index? j with
  | none =>
    rw [insert_plain absent' spells', insert_plain hj spells', insert_index hk spells,
      placeAt_append i _ _ spells']
  | some i' =>
    have apart : i ≠ i' := by
      rintro rfl
      exact other (index?_injective spells' spells)
    rw [insert_index absent' spells', insert_index hj spells', insert_index hk spells]
    rcases Nat.lt_or_gt_of_ne apart with less | less
    · exact (placeAt_placeAt less spells spells' r).symm
    · exact placeAt_placeAt less spells' spells r

theorem insert_insert (r : Record α) (name : String) (v w : α) :
    insert (insert r name v) name w = insert r name w := by
  rw [insert_known (mem_names_insert.mpr (.inl rfl))]
  have gone (s : Record α) : replace (replace s name v) name w = replace s name w := by
    simp only [replace, List.map_map]
    apply List.map_congr_left
    intro f _
    by_cases h : f.1 = name <;> simp [h]
  by_cases known : name ∈ names r
  · rw [insert_known known, insert_known known, gone]
  · obtain ⟨before, after, rfl, inserted⟩ := insert_new known
    have absent : name ∉ names before ∧ name ∉ names after := by
      simpa [names, not_or] using known
    have cons : replace ((name, v) :: after) name w = (name, w) :: replace after name w := by
      simp [replace]
    rw [inserted, inserted, replace_append, cons, replace_absent absent.1,
      replace_absent absent.2]

/-! Insertion in groups. -/

theorem overlay_nil (r : Record α) : overlay r [] = ofList r := by
  rw [overlay, List.append_nil]

theorem nil_overlay (r : Record α) : overlay [] r = ofList r := rfl

theorem ofList_distinct (fields : Record α) : Distinct (ofList fields) := by
  rw [← nil_overlay]
  exact overlay_distinct [] fields

theorem insertAll_append (r s t : Record α) :
    insertAll r (s ++ t) = insertAll (insertAll r s) t :=
  List.foldl_append

theorem ofList_append (r s : Record α) : ofList (r ++ s) = insertAll (ofList r) s :=
  insertAll_append [] r s

theorem insertAll_insert_comm {r s : Record α} {k : String} (absent : k ∉ names s)
    (placed : k ∈ names r ∨ (index? k).isSome) (v : α) :
    insertAll (insert r k v) s = insert (insertAll r s) k v := by
  induction s generalizing r with
  | nil => rfl
  | cons f s ih =>
    obtain ⟨other, absent⟩ : k ≠ f.1 ∧ k ∉ names s := by
      simpa [names, not_or] using absent
    have still : k ∈ names (insert r f.1 f.2) ∨ (index? k).isSome :=
      placed.imp_left fun known => mem_names_insert.mpr (.inr known)
    calc insertAll (insert r k v) (f :: s)
        = insertAll (insert (insert r k v) f.1 f.2) s := rfl
      _ = insertAll (insert (insert r f.1 f.2) k v) s := by rw [insert_comm other.symm placed]
      _ = insert (insertAll r (f :: s)) k v := ih absent still

theorem insertAll_insert (r : Record α) {s : Record α} (distinct : Distinct s) (k : String)
    (v : α) : insertAll r (insert s k v) = insert (insertAll r s) k v := by
  by_cases known : k ∈ names s
  · obtain ⟨f, hf, rfl⟩ := List.mem_map.mp known
    obtain ⟨before, after, rfl⟩ := List.append_of_mem hf
    obtain ⟨replaced, absent⟩ := replace_field distinct v
    have placed (w : α) : f.1 ∈ names (insert (insertAll r before) f.1 w) :=
      mem_names_insert.mpr (.inl rfl)
    rw [insert_known known, replaced, insertAll_append, insertAll_append]
    calc insertAll (insert (insertAll r before) f.1 v) after
        = insertAll (insert (insert (insertAll r before) f.1 f.2) f.1 v) after := by
          rw [insert_insert]
      _ = insert (insertAll (insert (insertAll r before) f.1 f.2) after) f.1 v :=
          insertAll_insert_comm absent (.inl (placed f.2)) v
  · cases spells : index? k with
    | none =>
      rw [insert_plain known spells, insertAll_append]
      rfl
    | some i =>
      have parts : s.takeWhile (precedes i) ++ s.dropWhile (precedes i) = s :=
        List.takeWhile_append_dropWhile
      have absent : k ∉ names (s.dropWhile (precedes i)) := by
        intro h
        rw [← parts] at known
        exact known (by simp only [names, List.map_append, List.mem_append]; exact .inr h)
      rw [insert_index known spells, placeAt, insertAll_append]
      calc insertAll (insert (insertAll r (s.takeWhile (precedes i))) k v)
            (s.dropWhile (precedes i))
          = insert (insertAll (insertAll r (s.takeWhile (precedes i)))
              (s.dropWhile (precedes i))) k v :=
            insertAll_insert_comm absent (.inr (by rw [spells]; rfl)) v
        _ = insert (insertAll r s) k v := by rw [← insertAll_append, parts]

theorem insertAll_ofList (r fields : Record α) :
    insertAll r (ofList fields) = insertAll r fields := by
  induction fields using List.reverseRec with
  | nil => rfl
  | append_singleton fields f ih =>
    calc insertAll r (ofList (fields ++ [f]))
        = insertAll r (insert (ofList fields) f.1 f.2) := by rw [ofList_append]; rfl
      _ = insert (insertAll r (ofList fields)) f.1 f.2 :=
          insertAll_insert r (ofList_distinct fields) f.1 f.2
      _ = insertAll r (fields ++ [f]) := by rw [ih, insertAll_append]; rfl

theorem overlay_assoc (a b c : Record α) :
    overlay (overlay a b) c = overlay a (overlay b c) := by
  have left : overlay (overlay a b) c = insertAll (ofList (ofList (a ++ b))) c :=
    ofList_append _ c
  have right : overlay a (overlay b c) = insertAll (ofList a) (ofList (b ++ c)) :=
    ofList_append a _
  have same : ofList (ofList (a ++ b)) = ofList (a ++ b) := insertAll_ofList [] (a ++ b)
  rw [left, right, same, insertAll_ofList, ← ofList_append, ← ofList_append, List.append_assoc]

end Record

namespace GroupOptions

theorem overlaySession_assoc (a b c : Option (Record Value)) :
    overlaySession (overlaySession a b) c = overlaySession a (overlaySession b c) := by
  have assoc := @Record.overlay_assoc Value
  have none : Record.overlay ([] : Record Value) [] = [] := rfl
  have again (r : Record Value) :
      Record.overlay [] (Record.overlay [] r) = Record.overlay [] r := by
    rw [← assoc, none]
  cases a <;> cases b <;> cases c <;>
    simp only [overlaySession, Option.getD_some, Option.getD_none, assoc, none, again]

theorem overlay_assoc (a b c : GroupOptions) :
    (a.overlay b).overlay c = a.overlay (b.overlay c) := by
  have orElse {β : Type} (x y z : Option β) : (z <|> y <|> x) = ((z <|> y) <|> x) := by
    cases z <;> rfl
  simp only [overlay, overlaySession_assoc, orElse]

theorem overlay_layout_comm (o : GroupOptions) {g l : GroupOptions} (bare : g.layout = none)
    (session : l.session = none) (container : l.container = none) :
    (o.overlay g).overlay l = (o.overlay l).overlay g := by
  have sessions : overlaySession g.session none = overlaySession none g.session := by
    cases g.session with
    | none => rfl
    | some s => exact congrArg some ((Record.overlay_nil s).trans (Record.nil_overlay s).symm)
  rw [overlay_assoc, overlay_assoc]
  congr 1
  simp [overlay, bare, session, container, sessions]

end GroupOptions

end ViewRouting
