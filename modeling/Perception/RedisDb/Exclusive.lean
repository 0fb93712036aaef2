import Perception.Lib.History
import Perception.RedisDb.RedisMng

/-!
# Who holds a pooled connection

The clients of the pool, in any interleaving. A new connection goes to its client with the
flag still at free, so the next client can get it as well. The flag tells the truth again
once the connection was given back for the first time.
-/
namespace Perception.RedisDb

set_option autoImplicit false

open Perception.Lib History

/-- The pool with its clients. -/
structure Clients (κ : Type) where
  w : World
  /-- Who holds which connection, with the `bLongConn` that came with it. -/
  held : List (κ × Addr × Bool)
  /-- The connections that were given back. -/
  returned : List Addr

inductive PoolEvent (κ : Type)
  | get (client : κ) (bLongConn : Bool) (env : ConnectEnv)
  | put (client : κ) (redis : Addr) (bLongConn : Bool)

variable {κ : Type}

namespace Clients

def Init (a : InitArgs) : Clients κ := ⟨.Init a, [], []⟩

/-- A client may give back only what it holds, as it was given. -/
def step [DecidableEq κ] (s : Clients κ) : PoolEvent κ → Option (Clients κ)
  | .get client bLongConn env =>
    match s.w.Get bLongConn env with
    | (w', none, _) => some { s with w := w' }
    | (w', some p, bLongConn') => some { s with w := w', held := (client, p, bLongConn') :: s.held }
  | .put client redis bLongConn =>
    if (client, redis, bLongConn) ∈ s.held then
      (s.w.Put (some redis) bLongConn).map fun w' =>
        ⟨w', s.held.erase (client, redis, bLongConn), redis :: s.returned⟩
    else none

/-- The connections that are held. -/
def out (s : Clients κ) : List Addr := s.held.map fun h => h.2.1

/-- No connection is held by two clients. -/
def Exclusive (s : Clients κ) : Prop :=
  ∀ c d p b b', (c, p, b) ∈ s.held → (d, p, b') ∈ s.held → c = d

def Bounded (s : Clients κ) : Prop := (s.w.mng.m_currentConnections : Int) ≤ s.w.mng.m_maxConnections

/-- All connections of the pool are held, and the last one was never given back. -/
def NewestOut (s : Clients κ) : Prop :=
  ∃ p ∈ s.w.pooled.getLast?, p ∉ s.returned ∧ ∀ q ∈ s.w.pooled, q ∈ s.out

instance (s : Clients κ) : Decidable (NewestOut s) := by
  unfold NewestOut
  infer_instance

/-- A connection is asked for, but not while the newest is out with all others. -/
def Spaced (s : Clients κ) : PoolEvent κ → Prop
  | .get _ _ _ => ¬ NewestOut s
  | .put _ _ _ => True

/-- A client asks for a connection when it holds none. -/
def OneEach (s : Clients κ) : PoolEvent κ → Prop
  | .get client _ _ => ∀ p b, (client, p, b) ∉ s.held
  | .put _ _ _ => True

/-- What the flag of a connection says: it is not held, or never given back so far. -/
def ready (s : Clients κ) (p : Addr) : Bool :=
  decide (p ∉ s.out ∨ (s.w.pooled.getLast? = some p ∧ p ∉ s.returned))

structure Inv (s : Clients κ) : Prop where
  conns : s.w.mng.m_connections.take s.w.mng.m_currentConnections = s.w.pooled.map some
  free : s.w.flags = s.w.pooled.map s.ready
  bounded : Bounded s
  size : s.w.mng.m_connections.length = s.w.mng.m_maxConnections.toNat ∧
    s.w.mng.m_is_free.length = s.w.mng.m_maxConnections.toNat
  index : ∀ i p, s.w.pooled[i]? = some p → ∃ r, s.w.deref p = some r ∧ r.m_pool_index = i
  once : s.out.Nodup
  kind : ∀ c p b, (c, p, b) ∈ s.held → (p ∈ s.w.pooled ↔ b = true) ∧ ∃ r, s.w.deref p = some r
  fresh : ∀ p ∈ s.returned, p < s.w.heap.length
  unreturned : ∀ p ∈ s.w.pooled, p ∉ s.returned → p ∈ s.out

theorem Inv.init (a : InitArgs) : Inv (Init a : Clients κ) where
  conns := rfl
  free := rfl
  bounded := Int.le_of_lt (maxOf_pos a.maxConnections a.initConnections)
  size := ⟨List.length_replicate, List.length_replicate⟩
  index := fun i p h => by cases h
  once := List.nodup_nil
  kind := fun c p b h => by cases h
  fresh := fun p h => by cases h
  unreturned := fun p h => by cases h

variable {s : Clients κ}

theorem mem_out {p : Addr} : p ∈ s.out ↔ ∃ c b, (c, p, b) ∈ s.held := by
  unfold out
  rw [List.mem_map]
  constructor
  · intro ⟨⟨c, q, b⟩, hmem, heq⟩
    exact ⟨c, b, heq ▸ hmem⟩
  · intro ⟨c, b, hmem⟩
    exact ⟨(c, p, b), hmem, rfl⟩

theorem ready_eq_true {p : Addr} :
    s.ready p = true ↔ p ∉ s.out ∨ (s.w.pooled.getLast? = some p ∧ p ∉ s.returned) := by
  unfold ready
  exact decide_eq_true_iff

theorem ready_eq_false {p : Addr} :
    s.ready p = false ↔ p ∈ s.out ∧ (s.w.pooled.getLast? = some p → p ∈ s.returned) := by
  rw [← Bool.not_eq_true, ready_eq_true]
  tauto

theorem ready_congr {s' : Clients κ} {p : Addr} (hout : p ∈ s'.out ↔ p ∈ s.out)
    (hlast : s'.w.pooled.getLast? = s.w.pooled.getLast?) (hret : p ∈ s'.returned ↔ p ∈ s.returned) :
    s'.ready p = s.ready p := by
  unfold ready
  simp only [hout, hlast, hret]

theorem Inv.length (h : Inv s) : s.w.pooled.length = s.w.mng.m_currentConnections := by
  have hlen := congrArg List.length h.conns
  have hsize := h.size.1
  have hbound : (s.w.mng.m_currentConnections : Int) ≤ s.w.mng.m_maxConnections := h.bounded
  rw [List.length_take, List.length_map] at hlen
  omega

theorem Inv.nodup (h : Inv s) : s.w.pooled.Nodup := by
  apply List.nodup_iff_getElem?_ne_getElem?.mpr
  intro i j hij hj heq
  obtain ⟨r, hr, hi⟩ := h.index j _ (List.getElem?_eq_getElem hj)
  obtain ⟨r', hr', hi'⟩ := h.index i _ (heq.trans (List.getElem?_eq_getElem hj))
  rw [hr] at hr'
  obtain rfl := Option.some.inj hr'
  omega

theorem Inv.exclusive (h : Inv s) : Exclusive s := by
  intro c d p b b' hc hd
  have heq := List.inj_on_of_nodup_map h.once hc hd rfl
  exact (Prod.mk.inj heq).1

theorem Inv.connection (h : Inv s) {i : Nat} {p : Addr} (hp : s.w.pooled[i]? = some p) :
    s.w.mng.m_connections[i]?.join = some p := by
  have hlt : i < s.w.pooled.length := (List.getElem?_eq_some_iff.mp hp).1
  rw [h.length] at hlt
  have hconn := congrArg (fun l => l[i]?) h.conns
  simp only [List.getElem?_take, List.getElem?_map, hp, hlt, if_true] at hconn
  rw [hconn]
  rfl

/-- The flags of the pool after one of them, and what it says, has changed. -/
theorem map_set_of_nodup {α β : Type} {l : List α} (hnd : l.Nodup) {i : Nat} {x : α} (hx : l[i]? = some x)
    {f g : α → β} {b : β} (hb : g x = b) (hne : ∀ y ∈ l, y ≠ x → g y = f y) : (l.map f).set i b = l.map g := by
  apply List.ext_getElem?
  intro j
  have hi := List.getElem?_eq_some_iff.mp hx
  by_cases hij : i = j
  · subst hij
    rw [List.getElem?_set_self (by rw [List.length_map]; exact hi.1), List.getElem?_map, hx, ← hb]
    rfl
  · rw [List.getElem?_set_ne hij, List.getElem?_map, List.getElem?_map]
    cases hy : l[j]? with
    | none => rfl
    | some y =>
      have hne' : y ≠ x := by
        intro heq
        rw [heq, ← hx] at hy
        exact hij ((List.getElem?_inj hi.1 hnd).mp hy.symm)
      rw [Option.map_some, Option.map_some, hne y (List.mem_of_getElem? hy) hne']

/-- The first connection whose flag is free. -/
theorem Inv.first_ready (h : Inv s) {i : Nat} (hi : s.w.flags.findIdx? id = some i) :
    ∃ p, s.w.pooled[i]? = some p ∧ s.ready p = true ∧
      ∀ j q, j < i → s.w.pooled[j]? = some q → s.ready q = false := by
  rw [h.free, List.findIdx?_map] at hi
  obtain ⟨hlt, hready, hbefore⟩ := List.findIdx?_eq_some_iff_getElem.mp hi
  refine ⟨s.w.pooled[i], List.getElem?_eq_getElem hlt, hready, fun j q hj hq => ?_⟩
  obtain ⟨hjlt, rfl⟩ := List.getElem?_eq_some_iff.mp hq
  exact Bool.not_eq_true _ ▸ hbefore j hj

theorem Inv.none_ready (h : Inv s) (hnone : s.w.flags.findIdx? id = none) : ∀ p ∈ s.w.pooled, s.ready p = false := by
  rw [h.free, List.findIdx?_map] at hnone
  exact List.findIdx?_eq_none_iff.mp hnone

theorem Inv.last_index (h : Inv s) {i : Nat} {p : Addr} (hp : s.w.pooled[i]? = some p)
    (hlast : s.w.pooled.getLast? = some p) : i + 1 = s.w.pooled.length := by
  rw [List.getLast?_eq_getElem?] at hlast
  have hlt : i < s.w.pooled.length := (List.getElem?_eq_some_iff.mp hp).1
  have heq := (List.getElem?_inj hlt h.nodup).mp (hp.trans hlast.symm)
  omega

/-- Unless the newest connection is out with all others, the first one whose flag is free
is not held. -/
theorem Inv.not_mem_out (h : Inv s) (hspaced : ¬ NewestOut s) {i : Nat} {p : Addr} (hp : s.w.pooled[i]? = some p)
    (hready : s.ready p = true) (hbefore : ∀ j q, j < i → s.w.pooled[j]? = some q → s.ready q = false) :
    p ∉ s.out := by
  intro hout
  obtain ⟨hlast, hret⟩ := (ready_eq_true.mp hready).resolve_left (not_not_intro hout)
  refine hspaced ⟨p, hlast, hret, fun q hq => ?_⟩
  obtain ⟨j, hj, rfl⟩ := List.getElem_of_mem hq
  have hlen := h.last_index hp hlast
  by_cases hji : j < i
  · exact (ready_eq_false.mp (hbefore j _ hji (List.getElem?_eq_getElem hj))).1
  · have hij : j = i := by omega
    subst hij
    have hpj := (List.getElem?_eq_some_iff.mp hp).2
    rw [hpj]
    exact hout

/-- Otherwise the first one whose flag is free is the newest, which is held. -/
theorem Inv.newest_ready (h : Inv s) (hnewest : NewestOut s) : ∃ i p, s.w.flags.findIdx? id = some i ∧
    s.w.pooled[i]? = some p ∧ p ∈ s.out := by
  obtain ⟨p, hlast, hret, hall⟩ := hnewest
  have hmem : p ∈ s.w.pooled := List.mem_of_getLast? hlast
  cases hi : s.w.flags.findIdx? id with
  | none =>
    have hfalse := ready_eq_false.mp (h.none_ready hi p hmem)
    exact absurd (hfalse.2 hlast) hret
  | some i =>
    obtain ⟨q, hq, -, -⟩ := h.first_ready hi
    exact ⟨i, q, rfl, hq, hall q (List.mem_of_getElem? hq)⟩

theorem out_cons (w' : World) (c : κ) (p : Addr) (b : Bool) :
    out { s with w := w', held := (c, p, b) :: s.held } = p :: s.out := rfl

/-- A connection that is not held, from the pool. -/
theorem Inv.reuse (h : Inv s) {i : Nat} {p : Addr} (hp : s.w.pooled[i]? = some p) (hout : p ∉ s.out) (c : κ) :
    Inv { s with w := s.w.setFree i false, held := (c, p, true) :: s.held } where
  conns := h.conns
  free := by
    have hlt : i < s.w.pooled.length := (List.getElem?_eq_some_iff.mp hp).1
    have hret : p ∈ s.returned := by
      by_contra hret
      exact hout (h.unreturned p (List.mem_of_getElem? hp) hret)
    have hready : ready { s with w := s.w.setFree i false, held := (c, p, true) :: s.held } p = false := by
      apply ready_eq_false.mpr
      rw [out_cons]
      exact ⟨List.mem_cons_self, fun _ => hret⟩
    rw [World.flags_setFree, h.free]
    apply map_set_of_nodup h.nodup hp hready
    intro q hq hne
    refine ready_congr ?_ rfl Iff.rfl
    rw [out_cons, List.mem_cons, or_iff_right hne]
  bounded := h.bounded
  size := ⟨h.size.1, (List.length_set).trans h.size.2⟩
  index := h.index
  once := List.nodup_cons.mpr ⟨hout, h.once⟩
  kind := fun d q b hmem => by
    rcases List.mem_cons.mp hmem with heq | hmem
    · cases heq
      obtain ⟨r, hr, -⟩ := h.index i p hp
      exact ⟨iff_of_true (List.mem_of_getElem? hp) rfl, r, hr⟩
    · exact h.kind d q b hmem
  fresh := h.fresh
  unreturned := fun q hq hret => List.mem_cons_of_mem _ (h.unreturned q hq hret)

/-- A server that cannot be reached leaves a hole on the heap. -/
theorem deref_append {w : World} {o : Option Redis} {p : Addr} {r : Redis} (h : w.deref p = some r) :
    World.deref { w with heap := w.heap ++ [o] } p = some r := by
  apply World.deref_eq_some.mpr
  show (w.heap ++ [o])[p]? = _
  rw [List.getElem?_append_left (World.lt_of_deref h)]
  exact World.deref_eq_some.mp h

theorem Inv.fresh_append (h : Inv s) {p : Addr} (hp : p ∈ s.returned) (o : Option Redis) :
    p < (s.w.heap ++ [o]).length := by
  rw [List.length_append]
  exact Nat.lt_add_right _ (h.fresh p hp)

theorem Inv.refused (h : Inv s) : Inv { s with w := { s.w with heap := s.w.heap ++ [none] } } where
  conns := h.conns
  free := h.free
  bounded := h.bounded
  size := h.size
  index := fun i p hp => by
    obtain ⟨r, hr, hi⟩ := h.index i p hp
    exact ⟨r, deref_append hr, hi⟩
  once := h.once
  kind := fun c p b hmem => by
    obtain ⟨hpool, r, hr⟩ := h.kind c p b hmem
    exact ⟨hpool, r, deref_append hr⟩
  fresh := fun p hp => h.fresh_append hp _
  unreturned := h.unreturned

theorem Inv.lt_of_pooled (h : Inv s) {p : Addr} (hp : p ∈ s.w.pooled) : p < s.w.heap.length := by
  obtain ⟨i, hi, rfl⟩ := List.getElem_of_mem hp
  obtain ⟨r, hr, -⟩ := h.index i _ (List.getElem?_eq_getElem hi)
  exact World.lt_of_deref hr

theorem Inv.lt_of_out (h : Inv s) {p : Addr} (hp : p ∈ s.out) : p < s.w.heap.length := by
  obtain ⟨c, b, hmem⟩ := mem_out.mp hp
  obtain ⟨-, r, hr⟩ := h.kind c p b hmem
  exact World.lt_of_deref hr

/-- A new connection that does not belong to the pool. -/
theorem Inv.short (h : Inv s) (r : Redis) (c : κ) :
    Inv { s with w := { s.w with heap := s.w.heap ++ [some r] }, held := (c, s.w.heap.length, false) :: s.held } where
  conns := h.conns
  free := by
    refine h.free.trans (List.map_congr_left fun p hp => ?_)
    have hne : p ≠ s.w.heap.length := Nat.ne_of_lt (h.lt_of_pooled hp)
    symm
    refine ready_congr ?_ rfl Iff.rfl
    rw [out_cons, List.mem_cons, or_iff_right hne]
  bounded := h.bounded
  size := h.size
  index := fun i p hp => by
    obtain ⟨r, hr, hi⟩ := h.index i p hp
    exact ⟨r, deref_append hr, hi⟩
  once := by
    apply List.nodup_cons.mpr
    refine ⟨fun hout => ?_, h.once⟩
    exact Nat.lt_irrefl _ (h.lt_of_out hout)
  kind := fun d p b hmem => by
    rcases List.mem_cons.mp hmem with heq | hmem
    · cases heq
      refine ⟨iff_of_false (fun hp => ?_) Bool.false_ne_true, r, World.deref_eq_some.mpr List.getElem?_concat_length⟩
      exact Nat.lt_irrefl _ (h.lt_of_pooled hp)
    · obtain ⟨hpool, r, hr⟩ := h.kind d p b hmem
      exact ⟨hpool, r, deref_append hr⟩
  fresh := fun p hp => h.fresh_append hp _
  unreturned := fun p hp hret => List.mem_cons_of_mem _ (h.unreturned p hp hret)

theorem lt_of_room {w : World} (hroom : ¬ (w.mng.m_currentConnections : Int) ≥ w.mng.m_maxConnections) :
    w.mng.m_currentConnections < w.mng.m_maxConnections.toNat := by
  omega

theorem Inv.pooled_store (h : Inv s)
    (hroom : ¬ (s.w.mng.m_currentConnections : Int) ≥ s.w.mng.m_maxConnections) (r : Redis) :
    (s.w.store r).mng.m_connections.take (s.w.store r).mng.m_currentConnections =
        (s.w.pooled ++ [s.w.heap.length]).map some ∧
      (s.w.store r).pooled = s.w.pooled ++ [s.w.heap.length] := by
  have htake : (s.w.store r).mng.m_connections.take (s.w.store r).mng.m_currentConnections =
      (s.w.pooled ++ [s.w.heap.length]).map some := by
    show (s.w.mng.m_connections.set _ _).take (s.w.mng.m_currentConnections + 1) = _
    rw [List.take_add_one, List.take_set_of_le (Nat.le_refl _), h.conns,
      List.getElem?_set_self (h.size.1 ▸ lt_of_room hroom), List.map_append]
    rfl
  refine ⟨htake, ?_⟩
  unfold World.pooled
  rw [htake, List.reduceOption, List.filterMap_map]
  exact List.filterMap_some

theorem Inv.mem_pooled_store (h : Inv s)
    (hroom : ¬ (s.w.mng.m_currentConnections : Int) ≥ s.w.mng.m_maxConnections) (r : Redis) {p : Addr} :
    p ∈ (s.w.store r).pooled ↔ p ∈ s.w.pooled ∨ p = s.w.heap.length := by
  rw [(h.pooled_store hroom r).2, List.mem_append, List.mem_singleton]

theorem deref_store (w : World) (r : Redis) :
    (w.store r).deref w.heap.length = some (r.setPoolIndex w.mng.m_currentConnections) :=
  World.deref_eq_some.mpr List.getElem?_concat_length

/-- The new connection has the index of its place in the pool, the others keep theirs. -/
theorem Inv.index_store (h : Inv s)
    (hroom : ¬ (s.w.mng.m_currentConnections : Int) ≥ s.w.mng.m_maxConnections) (r : Redis) {i : Nat} {p : Addr}
    (hp : (s.w.store r).pooled[i]? = some p) : ∃ r', (s.w.store r).deref p = some r' ∧ r'.m_pool_index = i := by
  rw [(h.pooled_store hroom r).2] at hp
  by_cases hi : i < s.w.pooled.length
  · rw [List.getElem?_append_left hi] at hp
    obtain ⟨r', hr', hindex⟩ := h.index i p hp
    exact ⟨r', deref_append hr', hindex⟩
  · have hi' : i = s.w.pooled.length := by
      have hlt := (List.getElem?_eq_some_iff.mp hp).1
      rw [List.length_append, List.length_singleton] at hlt
      omega
    subst hi'
    rw [List.getElem?_concat_length] at hp
    obtain rfl := Option.some.inj hp
    exact ⟨_, deref_store s.w r, h.length.symm⟩

/-- With no flag free, the flag of the new connection is the only one that is free then. -/
theorem Inv.ready_store (h : Inv s) (hnone : ∀ p ∈ s.w.pooled, s.ready p = false)
    (hroom : ¬ (s.w.mng.m_currentConnections : Int) ≥ s.w.mng.m_maxConnections) (r : Redis) (c : κ) :
    (∀ p ∈ s.w.pooled,
      ready { s with w := s.w.store r, held := (c, s.w.heap.length, true) :: s.held } p = s.ready p) ∧
      ready { s with w := s.w.store r, held := (c, s.w.heap.length, true) :: s.held } s.w.heap.length = true := by
  have hlast : (s.w.store r).pooled.getLast? = some s.w.heap.length := by
    rw [(h.pooled_store hroom r).2, List.getLast?_concat]
  constructor
  · intro p hp
    rw [hnone p hp]
    apply ready_eq_false.mpr
    refine ⟨List.mem_cons_of_mem _ (ready_eq_false.mp (hnone p hp)).1, fun hlast' => ?_⟩
    have heq := Option.some.inj (hlast.symm.trans hlast')
    exact absurd (h.lt_of_pooled hp) (heq ▸ Nat.lt_irrefl _)
  · apply ready_eq_true.mpr
    exact .inr ⟨hlast, fun hret => Nat.lt_irrefl _ (h.fresh _ hret)⟩

/-- A new connection of the pool, when no flag is free. Its own flag stays free. -/
theorem Inv.long (h : Inv s) (hnone : ∀ p ∈ s.w.pooled, s.ready p = false)
    (hroom : ¬ (s.w.mng.m_currentConnections : Int) ≥ s.w.mng.m_maxConnections) (r : Redis) (c : κ) :
    Inv { s with w := s.w.store r, held := (c, s.w.heap.length, true) :: s.held } where
  conns := by
    obtain ⟨htake, hpooled⟩ := h.pooled_store hroom r
    exact htake.trans (congrArg (List.map some) hpooled.symm)
  free := by
    obtain ⟨hold, hnew⟩ := h.ready_store hnone hroom r c
    show (s.w.mng.m_is_free.set _ _).take (s.w.mng.m_currentConnections + 1) = (s.w.store r).pooled.map _
    rw [List.take_add_one, List.take_set_of_le (Nat.le_refl _), List.getElem?_set_self (h.size.2 ▸ lt_of_room hroom),
      (h.pooled_store hroom r).2, List.map_append, List.map_congr_left hold, ← h.free, List.map_singleton, hnew]
    rfl
  bounded := by
    have hlt := lt_of_room hroom
    show ((s.w.mng.m_currentConnections + 1 : Nat) : Int) ≤ s.w.mng.m_maxConnections
    omega
  size := ⟨List.length_set.trans h.size.1, List.length_set.trans h.size.2⟩
  index := fun i p hp => h.index_store hroom r hp
  once := by
    apply List.nodup_cons.mpr
    exact ⟨fun hout => Nat.lt_irrefl _ (h.lt_of_out hout), h.once⟩
  kind := fun d p b hheld => by
    rcases List.mem_cons.mp hheld with heq | hheld
    · cases heq
      exact ⟨iff_of_true ((h.mem_pooled_store hroom r).mpr (.inr rfl)) rfl, _, deref_store s.w r⟩
    · obtain ⟨hpool, r', hr'⟩ := h.kind d p b hheld
      have hne : p ≠ s.w.heap.length := Nat.ne_of_lt (World.lt_of_deref hr')
      exact ⟨((h.mem_pooled_store hroom r).trans (or_iff_left hne)).trans hpool, r', deref_append hr'⟩
  fresh := fun p hp => h.fresh_append hp _
  unreturned := fun p hp hret => by
    rcases (h.mem_pooled_store hroom r).mp hp with hp | rfl
    · exact List.mem_cons_of_mem _ (h.unreturned p hp hret)
    · exact List.mem_cons_self

section

variable [DecidableEq κ]

theorem out_erase {c : κ} {p : Addr} {b : Bool} (hheld : (c, p, b) ∈ s.held) :
    s.out.Perm (p :: (s.held.erase (c, p, b)).map fun h => h.2.1) :=
  (List.perm_cons_erase hheld).map _

/-- What was given back is not held any more, and all else is as before. -/
theorem Inv.mem_out_erase (h : Inv s) {c : κ} {p : Addr} {b : Bool} (hheld : (c, p, b) ∈ s.held) (q : Addr) :
    q ∈ ((s.held.erase (c, p, b)).map fun h => h.2.1) ↔ q ∈ s.out ∧ q ≠ p := by
  have hnd := (out_erase hheld).nodup_iff.mp h.once
  rw [(out_erase hheld).mem_iff, List.mem_cons]
  constructor
  · intro hq
    exact ⟨.inr hq, fun heq => (List.nodup_cons.mp hnd).1 (heq ▸ hq)⟩
  · intro hq
    exact hq.1.resolve_left hq.2

theorem Inv.mem_held_erase (h : Inv s) {c d : κ} {p q : Addr} {b b' : Bool} (hheld : (c, p, b) ∈ s.held)
    (hq : (d, q, b') ∈ s.held.erase (c, p, b)) : (d, q, b') ∈ s.held ∧ q ≠ p :=
  ⟨List.mem_of_mem_erase hq, ((h.mem_out_erase hheld q).mp (List.mem_map.mpr ⟨_, hq, rfl⟩)).2⟩

/-- A connection outside the pool is deleted. -/
theorem Inv.delete (h : Inv s) {c : κ} {p : Addr} (hheld : (c, p, false) ∈ s.held) :
    Inv ⟨{ s.w with heap := s.w.heap.set p none }, s.held.erase (c, p, false), p :: s.returned⟩ := by
  have hpool : p ∉ s.w.pooled := fun hp => Bool.false_ne_true ((h.kind c p false hheld).1.mp hp)
  have hderef : ∀ {q : Addr} {r : Redis}, q ≠ p → s.w.deref q = some r →
      World.deref { s.w with heap := s.w.heap.set p none } q = some r := by
    intro q r hne hr
    apply World.deref_eq_some.mpr
    show (s.w.heap.set p none)[q]? = _
    rw [List.getElem?_set_ne hne.symm]
    exact World.deref_eq_some.mp hr
  have hne : ∀ q ∈ s.w.pooled, q ≠ p := fun q hq heq => hpool (heq ▸ hq)
  constructor
  · exact h.conns
  · refine h.free.trans (List.map_congr_left fun q hq => ?_)
    symm
    refine ready_congr ?_ rfl ?_
    · exact (h.mem_out_erase hheld q).trans (and_iff_left (hne q hq))
    · exact List.mem_cons.trans (or_iff_right (hne q hq))
  · exact h.bounded
  · exact h.size
  · intro i q hq
    obtain ⟨r, hr, hindex⟩ := h.index i q hq
    exact ⟨r, hderef (hne q (List.mem_of_getElem? hq)) hr, hindex⟩
  · exact (List.nodup_cons.mp ((out_erase hheld).nodup_iff.mp h.once)).2
  · intro d q b hq
    obtain ⟨hq, hqp⟩ := h.mem_held_erase hheld hq
    obtain ⟨hkind, r, hr⟩ := h.kind d q b hq
    exact ⟨hkind, r, hderef hqp hr⟩
  · intro q hq
    show q < (s.w.heap.set p none).length
    rw [List.length_set]
    rcases List.mem_cons.mp hq with rfl | hq
    · exact h.lt_of_out (mem_out.mpr ⟨c, false, hheld⟩)
    · exact h.fresh q hq
  · intro q hq hret
    apply (h.mem_out_erase hheld q).mpr
    exact ⟨h.unreturned q hq fun hmem => hret (List.mem_cons_of_mem _ hmem), hne q hq⟩

/-- A connection of the pool gets its flag back, which says now that it is not held. -/
theorem Inv.giveBack (h : Inv s) {c : κ} {p : Addr} (hheld : (c, p, true) ∈ s.held) {r : Redis}
    (hr : s.w.deref p = some r) :
    Inv ⟨s.w.setFree r.m_pool_index true, s.held.erase (c, p, true), p :: s.returned⟩ := by
  have hp : p ∈ s.w.pooled := (h.kind c p true hheld).1.mpr rfl
  obtain ⟨i, hi, hpi⟩ := List.getElem_of_mem hp
  have hpi' : s.w.pooled[i]? = some p := hpi ▸ List.getElem?_eq_getElem hi
  have hindex : r.m_pool_index = i := by
    obtain ⟨r', hr', hindex⟩ := h.index i p hpi'
    rw [hr] at hr'
    obtain rfl := Option.some.inj hr'
    exact hindex
  constructor
  · exact h.conns
  · rw [World.flags_setFree, h.free, hindex]
    apply map_set_of_nodup h.nodup hpi'
    · apply ready_eq_true.mpr
      exact .inl fun hout => ((h.mem_out_erase hheld p).mp hout).2 rfl
    · intro q hq hne
      refine ready_congr ?_ rfl ?_
      · exact (h.mem_out_erase hheld q).trans (and_iff_left hne)
      · exact List.mem_cons.trans (or_iff_right hne)
  · exact h.bounded
  · exact ⟨h.size.1, List.length_set.trans h.size.2⟩
  · exact h.index
  · exact (List.nodup_cons.mp ((out_erase hheld).nodup_iff.mp h.once)).2
  · intro d q b hq
    obtain ⟨hq, -⟩ := h.mem_held_erase hheld hq
    exact h.kind d q b hq
  · intro q hq
    rcases List.mem_cons.mp hq with rfl | hq
    · exact h.lt_of_pooled hp
    · exact h.fresh q hq
  · intro q hq hret
    apply (h.mem_out_erase hheld q).mpr
    refine ⟨h.unreturned q hq fun hmem => hret (List.mem_cons_of_mem _ hmem), fun heq => ?_⟩
    exact hret (heq ▸ List.mem_cons_self)

theorem step_get_none {c : κ} {b b' : Bool} {env : ConnectEnv} {w' : World} (h : s.w.Get b env = (w', none, b')) :
    s.step (.get c b env) = some { s with w := w' } := by
  simp only [step, h]

theorem step_get_some {c : κ} {b b' : Bool} {env : ConnectEnv} {w' : World} {p : Addr}
    (h : s.w.Get b env = (w', some p, b')) :
    s.step (.get c b env) = some { s with w := w', held := (c, p, b') :: s.held } := by
  simp only [step, h]

theorem step_put_eq_some {c : κ} {p : Addr} {b : Bool} {s' : Clients κ} :
    s.step (.put c p b) = some s' ↔ (c, p, b) ∈ s.held ∧ ∃ w', s.w.Put (some p) b = some w' ∧
      ⟨w', s.held.erase (c, p, b), p :: s.returned⟩ = s' := by
  show (if (c, p, b) ∈ s.held then Option.map _ (s.w.Put (some p) b) else none) = some s' ↔ _
  by_cases hheld : (c, p, b) ∈ s.held
  · rw [if_pos hheld, Option.map_eq_some_iff]
    exact (and_iff_right hheld).symm
  · rw [if_neg hheld]
    exact iff_of_false nofun fun h => hheld h.1

/-- A connection is counted only where there is room. -/
theorem Get_bounded {w w' : World} {b b' : Bool} {env : ConnectEnv} {o : Option Addr}
    (hw : (w.mng.m_currentConnections : Int) ≤ w.mng.m_maxConnections) (h : w.Get b env = (w', o, b')) :
    (w'.mng.m_currentConnections : Int) ≤ w'.mng.m_maxConnections := by
  cases hi : w.flags.findIdx? id with
  | some i =>
    rw [World.Get_of_free b env hi] at h
    cases h
    exact hw
  | none =>
    rw [World.Get_of_none b env hi] at h
    cases hok : (w.newRedis.connect env).2 with
    | false =>
      rw [World.newConnection_refused hok] at h
      cases h
      exact hw
    | true =>
      by_cases hfull : (w.mng.m_currentConnections : Int) ≥ w.mng.m_maxConnections
      · rw [World.newConnection_short hok hfull] at h
        cases h
        exact hw
      · rw [World.newConnection_long hok hfull] at h
        cases h
        show ((w.mng.m_currentConnections + 1 : Nat) : Int) ≤ w.mng.m_maxConnections
        omega

theorem step_bounded {s' : Clients κ} (e : PoolEvent κ) (hs : Bounded s) (h : s.step e = some s') : Bounded s' := by
  cases e with
  | get c b env =>
    rcases hget : s.w.Get b env with ⟨w', _ | p, b'⟩
    · rw [step_get_none hget] at h
      cases h
      exact Get_bounded hs hget
    · rw [step_get_some hget] at h
      cases h
      exact Get_bounded hs hget
  | put c p b =>
    obtain ⟨-, w', hput, rfl⟩ := step_put_eq_some.mp h
    obtain ⟨r, -, rfl⟩ := Option.map_eq_some_iff.mp hput
    cases b with
    | true => exact hs
    | false => exact hs

theorem Inv.step_get (h : Inv s) (c : κ) (b : Bool) (env : ConnectEnv) (hspaced : ¬ NewestOut s) :
    ∃ s', s.step (.get c b env) = some s' ∧ Inv s' := by
  cases hi : s.w.flags.findIdx? id with
  | some i =>
    obtain ⟨p, hp, hready, hbefore⟩ := h.first_ready hi
    have hget := World.Get_of_free b env hi
    rw [h.connection hp] at hget
    exact ⟨_, step_get_some hget, h.reuse hp (h.not_mem_out hspaced hp hready hbefore) c⟩
  | none =>
    have hget := World.Get_of_none b env hi
    cases hok : (s.w.newRedis.connect env).2 with
    | false => exact ⟨_, step_get_none (hget.trans (World.newConnection_refused hok)), h.refused⟩
    | true =>
      by_cases hfull : (s.w.mng.m_currentConnections : Int) ≥ s.w.mng.m_maxConnections
      · exact ⟨_, step_get_some (hget.trans (World.newConnection_short hok hfull)), h.short _ c⟩
      · exact ⟨_, step_get_some (hget.trans (World.newConnection_long hok hfull)),
          h.long (h.none_ready hi) hfull _ c⟩

/-- Giving back what is held always works. -/
theorem Inv.step_put (h : Inv s) {c : κ} {p : Addr} {b : Bool} (hheld : (c, p, b) ∈ s.held) :
    ∃ s', s.step (.put c p b) = some s' ∧ Inv s' := by
  obtain ⟨-, r, hr⟩ := h.kind c p b hheld
  cases b with
  | true =>
    refine ⟨_, step_put_eq_some.mpr ⟨hheld, _, ?_, rfl⟩, h.giveBack hheld hr⟩
    rw [World.Put, hr]
    rfl
  | false =>
    refine ⟨_, step_put_eq_some.mpr ⟨hheld, _, ?_, rfl⟩, h.delete hheld⟩
    rw [World.Put, hr]
    rfl

theorem Inv.step {s' : Clients κ} (e : PoolEvent κ) (h : Inv s) (hspaced : Spaced s e) (hstep : s.step e = some s') :
    Inv s' := by
  cases e with
  | get c b env =>
    obtain ⟨s₁, hstep₁, h₁⟩ := h.step_get c b env hspaced
    rw [hstep] at hstep₁
    exact Option.some.inj hstep₁ ▸ h₁
  | put c p b =>
    obtain ⟨s₁, hstep₁, h₁⟩ := h.step_put (step_put_eq_some.mp hstep).1
    rw [hstep] at hstep₁
    exact Option.some.inj hstep₁ ▸ h₁

/-- A client that asks while the newest connection is out with all others gets that one. -/
theorem Inv.shared {s' : Clients κ} (e : PoolEvent κ) (h : Inv s) (hone : OneEach s e) (hstep : s.step e = some s')
    (hexcl : Exclusive s') : Spaced s e := by
  cases e with
  | put c p b => trivial
  | get c b env =>
    intro hnewest
    obtain ⟨i, p, hi, hp, hout⟩ := h.newest_ready hnewest
    have hget := World.Get_of_free b env hi
    rw [h.connection hp] at hget
    rw [step_get_some hget] at hstep
    obtain rfl := Option.some.inj hstep
    obtain ⟨d, b', hd⟩ := mem_out.mp hout
    obtain rfl := hexcl c d p true b' List.mem_cons_self (List.mem_cons_of_mem _ hd)
    exact hone p b' hd

end

end Clients

/-- **Who holds a pooled connection.** In every history of the clients after `Init` the
pool keeps its bound. No connection is held by two clients if no client asks while the
newest connection of the pool, never given back, is out with all others; and, where a
client asks only when it holds nothing, only if so. -/
theorem pool_exclusive_iff [DecidableEq κ] (a : InitArgs) {es : List (PoolEvent κ)} {s : Clients κ}
    (h : run Clients.step (Clients.Init a) es = some s) :
    Always Clients.step Clients.Bounded (Clients.Init a) es ∧
      (EachStep Clients.step Clients.Spaced (Clients.Init a) es →
        Always Clients.step Clients.Exclusive (Clients.Init a) es) ∧
      (EachStep Clients.step Clients.OneEach (Clients.Init a) es →
        Always Clients.step Clients.Exclusive (Clients.Init a) es →
        EachStep Clients.step Clients.Spaced (Clients.Init a) es) := by
  have hinit : Clients.Inv (Clients.Init a : Clients κ) := .init a
  refine ⟨?_, fun hspaced => ?_, fun hone hexcl => ?_⟩
  · refine always_of_eachStep (C := fun _ _ => True) (fun s e s' hs _ hstep => ?_) hinit.bounded ?_
    · exact Clients.step_bounded e hs hstep
    · exact fun _ _ _ _ _ _ => trivial
  · have hinv := always_of_eachStep (fun s e s' hs hC hstep => Clients.Inv.step e hs hC hstep) hinit hspaced
    exact hinv.mono fun s hs => hs.exclusive
  · exact eachStep_of_always (fun s e s' hs hC hstep => Clients.Inv.step e hs hC hstep)
      (fun s e s' hs hD hstep hP => Clients.Inv.shared e hs hD hstep hP) hinit h hone hexcl

def smallPool : InitArgs := ⟨"127.0.0.1", "", 47393, 2, 5, 2, 1⟩
def reached : ConnectEnv := ⟨true, true, none⟩

/-- A connection is made and given back, got again, and then a second client gets its own. -/
def spacedEvents : List (PoolEvent Nat) :=
  [.get 1 true reached, .put 1 0 true, .get 1 true reached, .get 2 true reached]

theorem pool_exclusive_spaced :
    Always Clients.step Clients.Exclusive (Clients.Init smallPool : Clients Nat) spacedEvents := by
  obtain ⟨s, hs⟩ : ∃ s, run Clients.step (Clients.Init smallPool) spacedEvents = some s := ⟨_, rfl⟩
  apply (pool_exclusive_iff smallPool hs).2.1
  unfold spacedEvents
  refine eachStep_cons.mpr ⟨show ¬ Clients.NewestOut _ by decide +kernel, fun s₁ h₁ => ?_⟩
  cases h₁
  refine eachStep_cons.mpr ⟨trivial, fun s₂ h₂ => ?_⟩
  cases h₂
  refine eachStep_cons.mpr ⟨show ¬ Clients.NewestOut _ by decide +kernel, fun s₃ h₃ => ?_⟩
  cases h₃
  refine eachStep_cons.mpr ⟨show ¬ Clients.NewestOut _ by decide +kernel, fun s₄ h₄ => eachStep_nil⟩

/-- Two clients ask one after the other and hold the same connection. -/
theorem not_pool_exclusive_new : ∃ s : Clients Nat,
    run Clients.step (Clients.Init smallPool) [.get 1 true reached, .get 2 true reached] = some s ∧
      s.held = [(2, 0, true), (1, 0, true)] ∧
      ¬ Always Clients.step Clients.Exclusive (Clients.Init smallPool : Clients Nat)
        [.get 1 true reached, .get 2 true reached] := by
  obtain ⟨s, hs, hheld⟩ : ∃ s : Clients Nat,
      run Clients.step (Clients.Init smallPool) [.get 1 true reached, .get 2 true reached] = some s ∧
        s.held = [(2, 0, true), (1, 0, true)] := ⟨_, rfl, rfl⟩
  refine ⟨s, hs, hheld, fun h => ?_⟩
  have hexcl : Clients.Exclusive s := h _ [] s rfl hs
  have heq : (2 : Nat) = 1 := by
    apply hexcl 2 1 0 true true
    · rw [hheld]
      exact List.mem_cons_self
    · rw [hheld]
      exact List.mem_cons_of_mem _ List.mem_cons_self
  cases heq

end Perception.RedisDb
