import Mathlib.Data.List.Basic

/-!
# Blocks cut from areas

An arena hands out blocks from a list of areas. An area gives the addresses from `last` on
and never takes one back, so that the blocks of one area follow each other and those of two
areas lie in different allocations.
-/
namespace Perception.Lib

set_option autoImplicit false

/-- The addresses from `lo` up to but not including `hi`. -/
structure Span where
  lo : Nat
  hi : Nat
  deriving DecidableEq

namespace Span

def Within (a b : Span) : Prop := b.lo ≤ a.lo ∧ a.hi ≤ b.hi

def Apart (a b : Span) : Prop := a.hi ≤ b.lo ∨ b.hi ≤ a.lo

instance (a b : Span) : Decidable (a.Within b) := by unfold Within; infer_instance

instance (a b : Span) : Decidable (a.Apart b) := by unfold Apart; infer_instance

variable {a b c d : Span}

theorem Apart.symm (h : a.Apart b) : b.Apart a := Or.symm h

theorem Within.trans (hab : a.Within b) (hbc : b.Within c) : a.Within c :=
  ⟨Nat.le_trans hbc.1 hab.1, Nat.le_trans hab.2 hbc.2⟩

theorem Apart.of_within (h : a.Apart b) (hc : c.Within a) (hd : d.Within b) : c.Apart d := by
  unfold Apart Within at *
  omega

end Span

/-- The part of an allocation that starts at `mem` from which blocks are cut. -/
structure Area where
  mem : Nat
  data : Nat
  last : Nat
  stop : Nat
  deriving DecidableEq

namespace Area

/-- The whole allocation. -/
def span (a : Area) : Span := ⟨a.mem, a.stop⟩

/-- What may be handed out. -/
def room (a : Area) : Span := ⟨a.data, a.stop⟩

/-- What has been handed out. -/
def used (a : Area) : Span := ⟨a.data, a.last⟩

structure Ok (a : Area) : Prop where
  mem_le : a.mem ≤ a.data
  data_le : a.data ≤ a.last
  last_le : a.last ≤ a.stop

variable {a : Area}

theorem Ok.used_within (h : a.Ok) : a.used.Within a.room := ⟨Nat.le_refl _, h.last_le⟩

theorem Ok.room_within (h : a.Ok) : a.room.Within a.span := ⟨h.mem_le, Nat.le_refl _⟩

end Area

structure Arena where
  areas : List Area
  blocks : List Span

namespace Arena

/-- Every block lies in one area, and no two blocks overlap. -/
structure Sound (s : Arena) : Prop where
  within : ∀ b ∈ s.blocks, ∃ a ∈ s.areas, b.Within a.room
  apart : s.blocks.Pairwise Span.Apart

structure Inv (s : Arena) : Prop where
  ok : ∀ a ∈ s.areas, a.Ok
  spans : (s.areas.map Area.span).Pairwise Span.Apart
  within : ∀ b ∈ s.blocks, ∃ a ∈ s.areas, b.Within a.used
  apart : s.blocks.Pairwise Span.Apart

theorem Inv.sound {s : Arena} (h : s.Inv) : s.Sound := by
  refine ⟨fun b hb => ?_, h.apart⟩
  obtain ⟨a, ha, hin⟩ := h.within b hb
  exact ⟨a, ha, hin.trans (h.ok a ha).used_within⟩

variable {areas pre post : List Area} {blocks : List Span} {a : Area} {m n : Nat}

/-- An area that lies apart from the others is added. -/
theorem Inv.grow (h : Inv ⟨areas, blocks⟩) (ha : a.Ok) (hapart : ∀ b ∈ areas, b.span.Apart a.span) :
    Inv ⟨areas ++ [a], blocks⟩ := by
  constructor
  · intro b hb
    rcases List.mem_append.mp hb with hb | hb
    · exact h.ok b hb
    · rw [List.mem_singleton.mp hb]
      exact ha
  · simp only [List.map_append, List.map_cons, List.map_nil]
    refine List.pairwise_append.mpr ⟨h.spans, List.pairwise_singleton _ _, fun x hx y hy => ?_⟩
    obtain ⟨b, hb, rfl⟩ := List.mem_map.mp hx
    rw [List.mem_singleton.mp hy]
    exact hapart b hb
  · intro b hb
    obtain ⟨c, hc, hin⟩ := h.within b hb
    exact ⟨c, List.mem_append_left _ hc, hin⟩
  · exact h.apart

/-- What is cut off above `last` lies apart from all blocks before it. -/
theorem Inv.apart_above (h : Inv ⟨pre ++ a :: post, blocks⟩) (hm : a.last ≤ m) (hn : n ≤ a.stop) {b : Span}
    (hb : b ∈ blocks) : Span.Apart ⟨m, n⟩ b := by
  have ha : a.Ok := h.ok a (List.mem_append_right _ List.mem_cons_self)
  have hlow : a.mem ≤ m := Nat.le_trans ha.mem_le (Nat.le_trans ha.data_le hm)
  have hin : Span.Within ⟨m, n⟩ a.span := ⟨hlow, hn⟩
  have hspans := h.spans
  rw [List.map_append, List.map_cons, List.pairwise_append, List.pairwise_cons] at hspans
  obtain ⟨-, ⟨hpost, -⟩, hpre⟩ := hspans
  obtain ⟨c, hc, hbc⟩ := h.within b hb
  have hbspan : b.Within c.span := (hbc.trans (h.ok c hc).used_within).trans (h.ok c hc).room_within
  rcases List.mem_append.mp hc with hc | hc
  · have hca := hpre c.span (List.mem_map_of_mem hc) a.span List.mem_cons_self
    exact hca.symm.of_within hin hbspan
  · rcases List.mem_cons.mp hc with rfl | hc
    · exact .inr (Nat.le_trans hbc.2 hm)
    · exact (hpost c.span (List.mem_map_of_mem hc)).of_within hin hbspan

/-- A block is cut from an area. -/
theorem Inv.take (h : Inv ⟨pre ++ a :: post, blocks⟩) (hm : a.last ≤ m) (hmn : m ≤ n) (hn : n ≤ a.stop) :
    Inv ⟨pre ++ { a with last := n } :: post, ⟨m, n⟩ :: blocks⟩ := by
  have ha : a.Ok := h.ok a (List.mem_append_right _ List.mem_cons_self)
  have hlow : a.data ≤ m := Nat.le_trans ha.data_le hm
  constructor
  · intro b hb
    rcases List.mem_append.mp hb with hb | hb
    · exact h.ok b (List.mem_append_left _ hb)
    · rcases List.mem_cons.mp hb with rfl | hb
      · exact ⟨ha.mem_le, Nat.le_trans hlow hmn, hn⟩
      · exact h.ok b (List.mem_append_right _ (List.mem_cons_of_mem _ hb))
  · have hspans := h.spans
    rw [List.map_append, List.map_cons] at hspans ⊢
    exact hspans
  · intro b hb
    rcases List.mem_cons.mp hb with rfl | hb
    · exact ⟨_, List.mem_append_right _ List.mem_cons_self, hlow, Nat.le_refl _⟩
    · obtain ⟨c, hc, hin⟩ := h.within b hb
      rcases List.mem_append.mp hc with hc | hc
      · exact ⟨c, List.mem_append_left _ hc, hin⟩
      · rcases List.mem_cons.mp hc with rfl | hc
        · exact ⟨_, List.mem_append_right _ List.mem_cons_self, hin.1, Nat.le_trans hin.2 (Nat.le_trans hm hmn)⟩
        · exact ⟨c, List.mem_append_right _ (List.mem_cons_of_mem _ hc), hin⟩
  · exact List.pairwise_cons.mpr ⟨fun b hb => h.apart_above hm hn hb, h.apart⟩

end Arena

end Perception.Lib
