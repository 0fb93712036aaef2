import Mathlib.Data.List.Basic

/-!
# Delimiter framing

A frame starts with a head symbol and ends at the first following tail symbol. The
automaton below reads one symbol at a time. It either hunts for a head (`none`) or
holds the symbols of an unfinished frame (`some p`).
-/
namespace Perception.Lib.Framing

set_option autoImplicit false

variable {α : Type} [DecidableEq α] (head tail : α)

/-- One symbol: the new pending input and the frame it completes, if any. -/
def push (pend : Option (List α)) (b : α) : Option (List α) × Option (List α) :=
  match pend with
  | none => (if b = head then some [b] else none, none)
  | some p => if b = tail then (none, some (p ++ [b])) else (some (p ++ [b]), none)

/-- A whole input: the frames it completes, in order, and what stays pending. -/
def scan : Option (List α) → List α → List (List α) × Option (List α)
  | pend, [] => ([], pend)
  | pend, b :: bs =>
    let (pend', f) := push head tail pend b
    let (fs, r) := scan pend' bs
    (f.toList ++ fs, r)

/-- A complete frame: a head, symbols other than the tail, a tail. -/
def IsFrame (f : List α) : Prop := ∃ body, f = head :: body ++ [tail] ∧ tail ∉ body

/-- An unfinished frame that began with a head. -/
def IsPartial (p : List α) : Prop := ∃ body, p = head :: body ∧ tail ∉ p

@[simp] theorem scan_nil (pend : Option (List α)) : scan head tail pend [] = ([], pend) := rfl

theorem scan_cons (pend : Option (List α)) (b : α) (bs : List α) :
    scan head tail pend (b :: bs) =
      ((push head tail pend b).2.toList ++ (scan head tail (push head tail pend b).1 bs).1,
        (scan head tail (push head tail pend b).1 bs).2) := rfl

/-- Scanning is compositional: cutting the input anywhere changes nothing. -/
theorem scan_append (pend : Option (List α)) (xs ys : List α) :
    scan head tail pend (xs ++ ys) =
      ((scan head tail pend xs).1 ++ (scan head tail (scan head tail pend xs).2 ys).1,
        (scan head tail (scan head tail pend xs).2 ys).2) := by
  induction xs generalizing pend with
  | nil => simp
  | cons b bs ih => simp only [List.cons_append, scan_cons, ih, List.append_assoc]

/-- Symbols before the first head are dropped. -/
theorem scan_none_skip {pre : List α} (h : head ∉ pre) (xs : List α) :
    scan head tail none (pre ++ xs) = scan head tail none xs := by
  induction pre with
  | nil => rfl
  | cons b bs ih =>
    have hb : b ≠ head := fun he => h (he ▸ List.mem_cons_self)
    rw [List.cons_append, scan_cons, ← ih (fun hm => h (List.mem_cons_of_mem b hm))]
    simp [push, hb]

theorem scan_none_of_not_mem {xs : List α} (h : head ∉ xs) :
    scan head tail none xs = ([], none) := by
  have hs := scan_none_skip head tail h []
  rwa [List.append_nil] at hs

theorem scan_none_head (xs : List α) :
    scan head tail none (head :: xs) = scan head tail (some [head]) xs := by
  simp [scan_cons, push]

/-- Without a tail the pending frame only grows. -/
theorem scan_some_of_not_mem {xs : List α} (h : tail ∉ xs) (p : List α) :
    scan head tail (some p) xs = ([], some (p ++ xs)) := by
  induction xs generalizing p with
  | nil => simp
  | cons b bs ih =>
    have hb : b ≠ tail := fun he => h (he ▸ List.mem_cons_self)
    rw [scan_cons]
    simp only [push, if_neg hb, Option.toList_none, List.nil_append]
    rw [ih (fun hm => h (List.mem_cons_of_mem b hm))]
    simp

/-- The first tail completes the pending frame and the hunt starts again. -/
theorem scan_some_tail {body : List α} (h : tail ∉ body) (p rest : List α) :
    scan head tail (some p) (body ++ tail :: rest) =
      ((p ++ body ++ [tail]) :: (scan head tail none rest).1, (scan head tail none rest).2) := by
  rw [scan_append, scan_some_of_not_mem head tail h, scan_cons]
  simp [push]

/-- Frames in a row are recognised one by one. -/
theorem scan_frames {fs : List (List α)} (h : ∀ f ∈ fs, IsFrame head tail f) :
    scan head tail none fs.flatten = (fs, none) := by
  induction fs with
  | nil => rfl
  | cons f fs ih =>
    obtain ⟨body, rfl, hb⟩ := h f List.mem_cons_self
    have hrest := ih (fun g hg => h g (List.mem_cons_of_mem _ hg))
    rw [List.flatten_cons, List.append_assoc, List.cons_append, scan_none_head,
      List.singleton_append, scan_some_tail head tail hb, hrest]
    simp

/-- What the automaton holds is the end of what it has read. -/
theorem scan_pending_suffix (pend : Option (List α)) (xs : List α) {q : List α}
    (h : (scan head tail pend xs).2 = some q) : ∃ pre, pend.getD [] ++ xs = pre ++ q := by
  induction xs generalizing pend with
  | nil => exact ⟨[], by simp_all⟩
  | cons b bs ih =>
    rw [scan_cons] at h
    obtain ⟨pre, hpre⟩ := ih _ h
    cases pend with
    | none =>
      by_cases hb : b = head
      · exact ⟨pre, by simpa [push, hb] using hpre⟩
      · exact ⟨b :: pre, by simpa [push, hb] using hpre⟩
    | some p =>
      by_cases hb : b = tail
      · exact ⟨p ++ b :: pre, by simpa [push, hb] using hpre⟩
      · exact ⟨pre, by simpa [push, hb] using hpre⟩

/-- What the automaton holds has no tail in it. -/
theorem scan_pending_no_tail (hne : head ≠ tail) {pend : Option (List α)}
    (hp : tail ∉ pend.getD []) (xs : List α) : tail ∉ (scan head tail pend xs).2.getD [] := by
  induction xs generalizing pend with
  | nil => exact hp
  | cons b bs ih =>
    rw [scan_cons]
    apply ih
    cases pend with
    | none => by_cases hb : b = head <;> simp [push, hb, hne.symm]
    | some p =>
      rw [Option.getD_some] at hp
      by_cases hb : b = tail
      · simp [push, hb]
      · simp [push, hb, hp, Ne.symm hb]

/-- Every recognised frame is a contiguous piece of the input, pending part included. -/
theorem scan_frame_infix (pend : Option (List α)) (xs : List α) {f : List α}
    (h : f ∈ (scan head tail pend xs).1) : ∃ pre post, pend.getD [] ++ xs = pre ++ f ++ post := by
  induction xs generalizing pend with
  | nil => simp at h
  | cons b bs ih =>
    rw [scan_cons] at h
    cases pend with
    | none =>
      by_cases hb : b = head
      · obtain ⟨pre, post, he⟩ := ih _ (by simpa [push, hb] using h)
        exact ⟨pre, post, by simpa [hb] using he⟩
      · obtain ⟨pre, post, he⟩ := ih _ (by simpa [push, hb] using h)
        exact ⟨b :: pre, post, by simpa using he⟩
    | some p =>
      by_cases hb : b = tail
      · rcases List.mem_append.mp h with hf | hf
        · obtain rfl : f = p ++ [b] := by simpa [push, hb] using hf
          exact ⟨[], bs, by simp⟩
        · obtain ⟨pre, post, he⟩ := ih _ (by simpa [push, hb] using hf)
          exact ⟨p ++ b :: pre, post, by simpa using he⟩
      · obtain ⟨pre, post, he⟩ := ih _ (by simpa [push, hb] using h)
        exact ⟨pre, post, by simpa [push, hb] using he⟩

omit [DecidableEq α] in
/-- An unfinished frame followed by a frame is a frame. -/
theorem IsPartial.append (hne : head ≠ tail) {p f : List α} (hp : IsPartial head tail p)
    (hf : IsFrame head tail f) : IsFrame head tail (p ++ f) := by
  obtain ⟨pbody, rfl, hpt⟩ := hp
  obtain ⟨body, rfl, ht⟩ := hf
  refine ⟨pbody ++ head :: body, by simp, ?_⟩
  intro hm
  rcases List.mem_append.mp hm with hm | hm
  · exact hpt (List.mem_cons_of_mem head hm)
  · rcases List.mem_cons.mp hm with he | hm
    · exact hne he.symm
    · exact ht hm

end Perception.Lib.Framing
