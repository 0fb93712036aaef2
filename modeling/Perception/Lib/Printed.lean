/-!
# Printed numbers

Decimal numerals, those with a fixed number of digits, and the order of texts that begin with
them. Numerals of one length are in the order of their numbers. Numerals of different lengths
are not, and what follows them does not matter once they end in a sign that is not a digit.
-/
namespace Perception.Lib.Printed

set_option autoImplicit false

/-- The lexicographic order. -/
def LexLE : List Nat → List Nat → Prop
  | [], _ => True
  | _ :: _, [] => False
  | x :: xs, y :: ys => x < y ∨ x = y ∧ LexLE xs ys

instance LexLE.decidable : ∀ xs ys : List Nat, Decidable (LexLE xs ys)
  | [], _ => .isTrue trivial
  | _ :: _, [] => .isFalse id
  | x :: xs, y :: ys =>
    have := LexLE.decidable xs ys
    inferInstanceAs (Decidable (x < y ∨ x = y ∧ LexLE xs ys))

/-- Texts in the order of the codes of their signs. -/
def TextLE (s s' : List Char) : Prop := LexLE (s.map Char.toNat) (s'.map Char.toNat)

instance (s s' : List Char) : Decidable (TextLE s s') := inferInstanceAs (Decidable (LexLE _ _))

section Texts

variable {xs ys us vs : List Nat} {t : Nat}

theorem lexLE_refl (xs : List Nat) : LexLE xs xs := by
  induction xs with
  | nil => exact trivial
  | cons x xs ih => exact .inr ⟨rfl, ih⟩

/-- Fields of one length. -/
theorem lexLE_append (h : xs.length = ys.length) : LexLE (xs ++ us) (ys ++ vs) ↔ LexLE xs ys ∧ (xs = ys → LexLE us vs) := by
  induction xs generalizing ys with
  | nil =>
    obtain rfl : ys = [] := List.eq_nil_of_length_eq_zero h.symm
    exact ⟨fun h => ⟨trivial, fun _ => h⟩, fun h => h.2 rfl⟩
  | cons x xs ih =>
    cases ys with
    | nil => cases h
    | cons y ys =>
      have htail := ih (Nat.succ.inj h)
      simp only [List.cons_append, LexLE, htail, List.cons.injEq]
      constructor
      · intro hle
        rcases hle with hlt | ⟨rfl, hle, hrest⟩
        · exact ⟨.inl hlt, fun heq => absurd heq.1 (Nat.ne_of_lt hlt)⟩
        · exact ⟨.inr ⟨rfl, hle⟩, fun heq => hrest heq.2⟩
      · rintro ⟨hlt | ⟨rfl, hle⟩, hrest⟩
        · exact .inl hlt
        · exact .inr ⟨rfl, hle, fun heq => hrest ⟨rfl, heq⟩⟩

/-- Different texts that end in `t`, and have it nowhere else. -/
theorem lexLE_terminated (hxs : t ∉ xs) (hys : t ∉ ys) (hne : xs ≠ ys) :
    LexLE (xs ++ t :: us) (ys ++ t :: vs) ↔ LexLE (xs ++ [t]) (ys ++ [t]) := by
  induction xs generalizing ys with
  | nil =>
    cases ys with
    | nil => exact absurd rfl hne
    | cons y ys =>
      have hy : t ≠ y := fun heq => hys (heq ▸ List.mem_cons_self)
      simp only [List.nil_append, List.cons_append, LexLE, hy, false_and, or_false]
  | cons x xs ih =>
    cases ys with
    | nil =>
      have hx : x ≠ t := fun heq => hxs (heq ▸ List.mem_cons_self)
      simp only [List.nil_append, List.cons_append, LexLE, hx, false_and, or_false]
    | cons y ys =>
      have htail : x = y → (LexLE (xs ++ t :: us) (ys ++ t :: vs) ↔ LexLE (xs ++ [t]) (ys ++ [t])) := by
        intro hxy
        subst hxy
        apply ih (fun h => hxs (List.mem_cons_of_mem _ h)) (fun h => hys (List.mem_cons_of_mem _ h))
        intro heq
        exact hne (heq ▸ rfl)
      exact or_congr Iff.rfl (and_congr_right htail)

end Texts

theorem terminated_inj {α : Type} {xs ys us vs : List α} {t : α} (hxs : t ∉ xs) (hys : t ∉ ys)
    (h : xs ++ t :: us = ys ++ t :: vs) : xs = ys ∧ us = vs := by
  induction xs generalizing ys with
  | nil =>
    cases ys with
    | nil => exact ⟨rfl, (List.cons.inj h).2⟩
    | cons y ys => exact absurd ((List.cons.inj h).1 ▸ List.mem_cons_self) hys
  | cons x xs ih =>
    cases ys with
    | nil => exact absurd ((List.cons.inj h).1 ▸ List.mem_cons_self) hxs
    | cons y ys =>
      obtain ⟨rfl, htail⟩ := List.cons.inj h
      obtain ⟨rfl, hrest⟩ := ih (fun h => hxs (List.mem_cons_of_mem _ h)) (fun h => hys (List.mem_cons_of_mem _ h)) htail
      exact ⟨rfl, hrest⟩

/-- `%d` of a number that is not negative. -/
def decimal (n : Nat) : List Char := Nat.toDigits 10 n

/-- `%02d`. -/
def decimal2 (n : Nat) : List Char := if n < 10 then '0' :: decimal n else decimal n

theorem decimal_inj {m n : Nat} (h : decimal m = decimal n) : m = n := by
  have hvalue := congrArg (Nat.ofDigitChars 10 · 0) h
  simpa only [decimal, Nat.ofDigitChars_ten_toDigits] using hvalue

theorem isDigit_of_mem_decimal {n : Nat} {c : Char} (h : c ∈ decimal n) : c.isDigit = true :=
  Nat.isDigit_of_mem_toDigits (by decide) (by decide) h

theorem decimal2_eq : ∀ n < 100, decimal2 n = [Nat.digitChar (n / 10), Nat.digitChar (n % 10)] := by decide

theorem codes_digits : ∀ n < 10, (Nat.digitChar n).toNat = 48 + n := by decide

/-- The two digits. -/
theorem codes_decimal2 {n : Nat} (h : n < 100) : (decimal2 n).map Char.toNat = [48 + n / 10, 48 + n % 10] := by
  rw [decimal2_eq n h, List.map_cons, List.map_singleton, codes_digits _ (by omega), codes_digits _ (by omega)]

theorem length_decimal2 {n : Nat} (h : n < 100) : (decimal2 n).length = 2 := by
  rw [decimal2_eq n h]
  rfl

theorem codes_decimal2_inj {m n : Nat} (hm : m < 100) (hn : n < 100) :
    (decimal2 m).map Char.toNat = (decimal2 n).map Char.toNat ↔ m = n := by
  rw [codes_decimal2 hm, codes_decimal2 hn]
  simp only [List.cons.injEq, and_true]
  omega

theorem lexLE_decimal2 {m n : Nat} (hm : m < 100) (hn : n < 100) :
    LexLE ((decimal2 m).map Char.toNat) ((decimal2 n).map Char.toNat) ↔ m ≤ n := by
  rw [codes_decimal2 hm, codes_decimal2 hn]
  simp only [LexLE, and_true]
  omega

/-- Fields of two digits, each behind its sign. -/
def fields : List Char → List Nat → List Char
  | sep :: seps, n :: ns => sep :: decimal2 n ++ fields seps ns
  | _, _ => []

/-- The order of fields is that of their numbers. -/
theorem textLE_fields (seps : List Char) {ms ns : List Nat} (hm : ∀ m ∈ ms, m < 100) (hn : ∀ n ∈ ns, n < 100)
    (hlen : ms.length = seps.length) (hlen' : ns.length = seps.length) :
    TextLE (fields seps ms) (fields seps ns) ↔ LexLE ms ns := by
  induction seps generalizing ms ns with
  | nil =>
    obtain rfl := List.eq_nil_of_length_eq_zero hlen
    obtain rfl := List.eq_nil_of_length_eq_zero hlen'
    exact iff_of_true trivial trivial
  | cons sep seps ih =>
    cases ms with
    | nil => cases hlen
    | cons m ms =>
      cases ns with
      | nil => cases hlen'
      | cons n ns =>
        obtain ⟨hm, hms⟩ := List.forall_mem_cons.mp hm
        obtain ⟨hn, hns⟩ := List.forall_mem_cons.mp hn
        have hwidth : ((decimal2 m).map Char.toNat).length = ((decimal2 n).map Char.toNat).length := by
          rw [List.length_map, List.length_map, length_decimal2 hm, length_decimal2 hn]
        have htail : LexLE ((fields seps ms).map Char.toNat) ((fields seps ns).map Char.toNat) ↔ LexLE ms ns :=
          ih hms hns (Nat.succ.inj hlen) (Nat.succ.inj hlen')
        simp only [TextLE, fields, List.map_append, List.map_cons, List.cons_append, LexLE]
        rw [lexLE_append hwidth, lexLE_decimal2 hm hn, codes_decimal2_inj hm hn, htail]
        constructor
        · intro hle
          rcases hle with habs | ⟨-, hle, hrest⟩
          · exact absurd habs (Nat.lt_irrefl _)
          · rcases Nat.lt_or_eq_of_le hle with hlt | heq
            · exact .inl hlt
            · exact .inr ⟨heq, hrest heq⟩
        · intro hle
          rcases hle with hlt | ⟨rfl, hrest⟩
          · exact .inr ⟨trivial, Nat.le_of_lt hlt, fun heq => absurd heq (Nat.ne_of_lt hlt)⟩
          · exact .inr ⟨trivial, Nat.le_refl _, fun _ => hrest⟩

/-- A printed field can be read. -/
theorem fields_inj (seps : List Char) {ms ns : List Nat} (hm : ∀ m ∈ ms, m < 100) (hn : ∀ n ∈ ns, n < 100)
    (hlen : ms.length = seps.length) (hlen' : ns.length = seps.length) (h : fields seps ms = fields seps ns) : ms = ns := by
  induction seps generalizing ms ns with
  | nil => rw [List.eq_nil_of_length_eq_zero hlen, List.eq_nil_of_length_eq_zero hlen']
  | cons sep seps ih =>
    cases ms with
    | nil => cases hlen
    | cons m ms =>
      cases ns with
      | nil => cases hlen'
      | cons n ns =>
        obtain ⟨hm, hms⟩ := List.forall_mem_cons.mp hm
        obtain ⟨hn, hns⟩ := List.forall_mem_cons.mp hn
        have hwidth : (sep :: decimal2 m).length = (sep :: decimal2 n).length := by
          rw [List.length_cons, List.length_cons, length_decimal2 hm, length_decimal2 hn]
        obtain ⟨hfield, hrest⟩ := List.append_inj h hwidth
        have hcodes := congrArg (List.map Char.toNat) (List.cons.inj hfield).2
        rw [(codes_decimal2_inj hm hn).mp hcodes, ih hms hns (Nat.succ.inj hlen) (Nat.succ.inj hlen') hrest]

end Perception.Lib.Printed
