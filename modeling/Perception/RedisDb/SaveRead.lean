import Perception.Cfg.LoadCfg
import Perception.RedisDb.Command
import Perception.RedisDb.SaveAck

/-!
# What was saved is read

With a server that answers every command, the texts that are saved under a key and read
back are what the client library makes of the commands. They are the texts themselves only
if the library finds nothing to interpret in them.
-/
namespace Perception.RedisDb

set_option autoImplicit false

open Perception.Lib History
open Perception.Db (c_str)
open Perception.Cfg (NulFree c_str_eq_self nulFree_c_str)

/-- After the calls of `RedisSaveData` the texts are read, behind what was in the vector. -/
def RoundTrip (format : Format) (a : InitArgs) (sv : Server) (strKey : String) (ds : List String) : Prop :=
  ∃ s, run (save format strKey) (World.Init a, sv) ds = some s ∧
    ∀ vecData, ∃ s', RedisReadData format s strKey vecData = some (s', vecData ++ ds.map String.toList)

/-- There is nothing to interpret in a text: it is one word, and has no percent sign but in
the last place. -/
def PlainWord (d : List Char) : Prop := d ≠ [] ∧ ' ' ∉ d ∧ '%' ∉ d.dropLast

def pushCommand (strKey strData : String) : String := "RPUSH " ++ c_str strKey ++ " " ++ c_str strData

def rangeCommand (strKey : String) : String := "LRANGE " ++ c_str strKey ++ " 0 -1"

/-- The server after the commands for the texts. -/
def pushes (format : Format) (strKey : String) (sv : Server) (ds : List String) : Server :=
  ds.foldl (fun sv d => (redisCommand format sv (pushCommand strKey d)).1) sv

theorem pushes_cons (format : Format) (strKey : String) (sv : Server) (d : String) (ds : List String) :
    pushes format strKey sv (d :: ds) = pushes format strKey (redisCommand format sv (pushCommand strKey d)).1 ds := rfl

/-- The strings of the reply to a read. -/
def readBack (format : Format) (sv : Server) (strKey : String) : List (List Char) :=
  ((redisCommand format sv (rangeCommand strKey)).2.map Reply.elements).getD []

theorem connect_stable (config : FSRedisConfig) :
    (FSRedis.connect config stable).1.m_pContext.isSome = true ∧ (FSRedis.connect config stable).2 = true := by
  unfold FSRedis.connect stable
  cases config.pwd.isEmpty with
  | true => exact ⟨rfl, rfl⟩
  | false => exact ⟨rfl, rfl⟩

theorem reConnect_stable (r : Redis) : ∃ r', r.reConnect stable = (r', true) ∧ r'.db.m_pContext.isSome = true ∧
    r'.m_pool_index = r.m_pool_index := by
  obtain ⟨hopen, hok⟩ := connect_stable r.conf
  refine ⟨{ r with db := (FSRedis.connect r.conf stable).1 }, ?_, hopen, rfl⟩
  rw [← hok]
  rfl

/-- The command is sent once, or twice if the first time it is not answered with a number. -/
theorem rpush_list_stable {r : Redis} (hopen : r.db.m_pContext.isSome = true) (key pData : String)
    (reply retry : Option ReplyType) :
    ∃ r' s32Ret log, r.rpush_list key pData ⟨reply, stable, retry⟩ = (r', s32Ret, log) ∧
      r'.db.m_pContext.isSome = true ∧ r'.m_pool_index = r.m_pool_index ∧
        log = ⟨"RPUSH " ++ c_str key ++ " " ++ pData, reply⟩ ::
          if reply = some .INTEGER then [] else [⟨"RPUSH " ++ c_str key ++ " " ++ pData, retry⟩] := by
  unfold Redis.rpush_list
  rw [FSRedis.pushStringToList_open hopen]
  by_cases hint : reply = some .INTEGER
  · rw [if_pos hint, if_pos hint]
    exact ⟨r, 0, _, rfl, hopen, rfl, rfl⟩
  · obtain ⟨r', hre, hopen', hindex⟩ := reConnect_stable r
    rw [if_neg hint, if_neg hint]
    simp only [show ¬ (0 : Int) ≤ -1 by decide, if_false, hre, FSRedis.pushStringToList_open hopen']
    exact ⟨r', _, _, rfl, hopen', hindex, rfl⟩

/-- The pool has no connection yet, or one that is open and free. -/
def Ready (a : InitArgs) (w : World) : Prop :=
  Unused a w ∨ ∃ r, Reusable w r ∧ r.db.m_pContext.isSome = true

theorem Ready.get {a : InitArgs} {w : World} (hw : Ready a w) :
    ∃ w₁ p r, w.Get true stable = (w₁, some p, true) ∧ Given w₁ p r ∧ r.db.m_pContext.isSome = true := by
  rcases hw with hw | ⟨r, hw, hopen⟩
  · exact hw.get (connect_stable _).2
  · obtain ⟨w₁, p, hget, hg⟩ := hw.get stable
    exact ⟨w₁, p, r, hget, hg, hopen⟩

theorem Ready.save {a : InitArgs} {w : World} (hw : Ready a w) (format : Format) (sv : Server) (strKey strData : String) :
    ∃ w', Ready a w' ∧ RedisDb.save format strKey (w, sv) strData =
      some (w', (redisCommand format sv (pushCommand strKey strData)).1) := by
  obtain ⟨w₁, p, r, hget, hg, hopen⟩ := hw.get
  obtain ⟨r', s32Ret, log, hpush, hopen', hindex, hlog⟩ :=
    rpush_list_stable hopen strKey (c_str strData) (saveCall format sv strKey strData).push.reply
      (saveCall format sv strKey strData).push.retry
  obtain ⟨w', hsave, hw'⟩ := @RedisSaveData_given w w₁ (saveCall format sv strKey strData) p r r' s32Ret log hget hg
    hpush hindex
  refine ⟨w', .inr ⟨r', hw', hopen'⟩, ?_⟩
  rw [RedisDb.save, hsave, Option.map_some, hlog]
  by_cases hint : (saveCall format sv strKey strData).push.reply = some .INTEGER
  · rw [if_pos hint]
    rfl
  · rw [if_neg hint]
    have hsame : (redisCommand format sv (pushCommand strKey strData)).1 = sv := redisCommand_of_type_ne hint
    show some (w', (redisCommand format (redisCommand format sv (pushCommand strKey strData)).1
      (pushCommand strKey strData)).1) = _
    rw [hsame, hsame]

theorem Ready.saves {a : InitArgs} {w : World} (hw : Ready a w) (format : Format) (sv : Server) (strKey : String)
    (ds : List String) :
    ∃ w', Ready a w' ∧ run (RedisDb.save format strKey) (w, sv) ds = some (w', pushes format strKey sv ds) := by
  induction ds generalizing w sv with
  | nil => exact ⟨w, hw, rfl⟩
  | cons d ds ih =>
    obtain ⟨w₁, hw₁, hsave⟩ := hw.save format sv strKey d
    obtain ⟨w', hw', hrun⟩ := ih hw₁ (redisCommand format sv (pushCommand strKey d)).1
    refine ⟨w', hw', ?_⟩
    rw [run_cons_of_step hsave, hrun, pushes_cons]

/-- A read on an open connection; a second attempt fares no better than the first. -/
theorem lrange_list_stable {r : Redis} (hopen : r.db.m_pContext.isSome = true) (format : Format) (sv : Server)
    (strKey : String) (datalist : List (List Char)) :
    ∃ r' sv', r.lrange_list format sv strKey none datalist = (r', sv', datalist ++ readBack format sv strKey) ∧
      r'.m_pool_index = r.m_pool_index := by
  obtain ⟨ctx, hctx⟩ := Option.isSome_iff_exists.mp hopen
  obtain ⟨r', hre, hopen', hindex⟩ := reConnect_stable r
  obtain ⟨ctx', hctx'⟩ := Option.isSome_iff_exists.mp hopen'
  unfold Redis.lrange_list FSRedis.getDataFromList readBack rangeCommand
  rw [hctx]
  cases hformat : format ("LRANGE " ++ c_str strKey ++ " 0 -1").toList with
  | some argv =>
    simp only [redisCommand, hformat]
    exact ⟨r, _, rfl, rfl⟩
  | none =>
    simp only [redisCommand, hformat, hre, hctx']
    exact ⟨r', _, rfl, hindex⟩

theorem Ready.read {a : InitArgs} {w : World} (hw : Ready a w) (format : Format) (sv : Server) (strKey : String)
    (vecData : List (List Char)) :
    ∃ s', RedisReadData format (w, sv) strKey vecData = some (s', vecData ++ readBack format sv strKey) := by
  obtain ⟨w₁, p, r, hget, hg, hopen⟩ := hw.get
  obtain ⟨r', sv', hrange, hindex⟩ := lrange_list_stable hopen format sv strKey vecData
  obtain ⟨w', hput, -⟩ := hg.put (hindex.trans hg.index)
  refine ⟨(w', sv'), ?_⟩
  unfold RedisReadData
  simp only [hget, hg.deref, Option.bind_eq_bind, Option.bind_some, hrange, hput]
  rfl

/-- The pool and the connections do not matter. -/
theorem roundTrip_iff_readBack (format : Format) (a : InitArgs) (sv : Server) (strKey : String) (ds : List String) :
    RoundTrip format a sv strKey ds ↔
      readBack format (pushes format strKey sv ds) strKey = ds.map String.toList := by
  have hinit : Ready a (World.Init a) := .inl rfl
  obtain ⟨w, hw, hrun⟩ := hinit.saves format sv strKey ds
  constructor
  · rintro ⟨s, hs, hread⟩
    cases hrun.symm.trans hs
    obtain ⟨s', hs'⟩ := hread []
    obtain ⟨s'', hs''⟩ := hw.read format (pushes format strKey sv ds) strKey []
    have heq := congrArg Prod.snd (Option.some.inj (hs''.symm.trans hs'))
    exact List.append_cancel_left heq
  · intro h
    refine ⟨_, hrun, fun vecData => ?_⟩
    obtain ⟨s', hs'⟩ := hw.read format (pushes format strKey sv ds) strKey vecData
    exact ⟨s', h ▸ hs'⟩

/-- Where a read goes: to the key itself, unless a percent sign has been taken out of it. -/
theorem interpret_range {k : List Char} (hk : k ≠ []) (hspace : ' ' ∉ k) {argv : List (List Char)}
    (h : interpret ("LRANGE".toList ++ ' ' :: (k ++ ' ' :: "0 -1".toList)) = some argv) :
    ∃ T, argv = ["LRANGE".toList, T, "0".toList, "-1".toList] ∧ (∀ c ∈ T, c ∈ k) ∧ ('%' ∈ k → T.length < k.length) := by
  obtain ⟨t, ht, rfl⟩ := Option.map_eq_some_iff.mp h
  rw [plain_append (by decide), plain_cons (by decide), Option.map_map] at ht
  obtain ⟨t, htail, rfl⟩ := Option.map_eq_some_iff.mp ht
  obtain ⟨T, rest, rfl, hrest, hmem, hne, -, hlt⟩ := plain_append_cons (by decide) htail
  have hplain : plain "0 -1".toList = some "0 -1".toList := (plain_eq_self_iff _).mpr (by decide)
  cases hplain.symm.trans hrest
  refine ⟨T, ?_, hmem, hlt⟩
  have htail : strtok ' ' "0 -1".toList = ["0".toList, "-1".toList] := by decide
  simp only [Function.comp_apply]
  rw [strtok_append_cons, strtok_append_cons, htail, strtok_of_not_mem (by decide) (by decide),
    strtok_of_not_mem (fun hs => hspace (hmem ' ' hs)) (hne hk)]
  rfl

theorem interpret_range_of_plain {k : List Char} (hk : k ≠ []) (hspace : ' ' ∉ k) (hpct : '%' ∉ k) :
    interpret ("LRANGE".toList ++ ' ' :: (k ++ ' ' :: "0 -1".toList)) =
      some ["LRANGE".toList, k, "0".toList, "-1".toList] := by
  have hplain : plain ("LRANGE".toList ++ ' ' :: (k ++ ' ' :: "0 -1".toList)) =
      some ("LRANGE".toList ++ ' ' :: (k ++ ' ' :: "0 -1".toList)) := by
    rw [plain_append (by decide), plain_cons (by decide), plain_append hpct, plain_cons (by decide),
      (plain_eq_self_iff _).mpr (by decide)]
    rfl
  have htail : strtok ' ' "0 -1".toList = ["0".toList, "-1".toList] := by decide
  rw [interpret, hplain, Option.map_some, strtok_append_cons, strtok_append_cons, htail,
    strtok_of_not_mem (by decide) (by decide), strtok_of_not_mem hspace hk]
  rfl

/-- A text is cut into the values of the command. -/
theorem interpret_push {k : List Char} (hk : k ≠ []) (hspace : ' ' ∉ k) (hpct : '%' ∉ k) (d : List Char) :
    interpret ("RPUSH".toList ++ ' ' :: (k ++ ' ' :: d)) =
      (interpret d).map fun values => "RPUSH".toList :: k :: values := by
  rw [interpret, plain_append (by decide), plain_cons (by decide), plain_append hpct, plain_cons (by decide), interpret]
  cases plain d with
  | none => rfl
  | some t =>
    simp only [Option.map_some, Option.some.injEq]
    rw [strtok_append_cons, strtok_append_cons, strtok_of_not_mem (by decide) (by decide), strtok_of_not_mem hspace hk]
    rfl

theorem interpret_plainWord {d : List Char} (h : PlainWord d) : interpret d = some [d] := by
  obtain ⟨hne, hspace, hpct⟩ := h
  rw [interpret, (plain_eq_self_iff d).mpr hpct, Option.map_some, strtok_of_not_mem hspace hne]

/-- A text that is stored as itself has nothing to interpret. -/
theorem plainWord_of_interpret {d : List Char} (h : interpret d = some [d]) : PlainWord d := by
  obtain ⟨t, ht, hd⟩ := Option.map_eq_some_iff.mp h
  obtain ⟨hne, hspace, hmem⟩ := mem_strtok (hd ▸ List.mem_cons_self : d ∈ strtok ' ' t)
  refine ⟨hne, hspace, (plain_eq_self_iff d).mp ?_⟩
  rw [ht]
  by_cases hst : ' ' ∈ t
  · exact absurd ((plain_le ht).2.2 ' ' hst) hspace
  · have htne : t ≠ [] := by
      rintro rfl
      cases hd
    rw [strtok_of_not_mem hst htne] at hd
    rw [(List.cons.inj hd).1]

theorem toList_rangeCommand (strKey : String) :
    (rangeCommand strKey).toList = "LRANGE".toList ++ ' ' :: ((c_str strKey).toList ++ ' ' :: "0 -1".toList) := by
  have hname : "LRANGE ".toList = "LRANGE".toList ++ [' '] := by decide
  have htail : " 0 -1".toList = ' ' :: "0 -1".toList := by decide
  rw [rangeCommand, String.toList_append, String.toList_append, hname, htail, List.append_assoc, List.append_assoc,
    List.singleton_append]

theorem toList_pushCommand (strKey strData : String) (h : NulFree strData.toList) :
    (pushCommand strKey strData).toList = "RPUSH".toList ++ ' ' :: ((c_str strKey).toList ++ ' ' :: strData.toList) := by
  have hname : "RPUSH ".toList = "RPUSH".toList ++ [' '] := by decide
  have hspace : " ".toList = [' '] := by decide
  rw [pushCommand, c_str_eq_self.mpr h, String.toList_append, String.toList_append, String.toList_append, hname, hspace,
    List.append_assoc, List.append_assoc, List.append_assoc, List.singleton_append, List.singleton_append]

theorem redisCommand_of_format {format : Format} (sv : Server) {strCmd : String} {argv : List (List Char)}
    (h : format strCmd.toList = some argv) :
    redisCommand format sv strCmd = ((sv.exec argv).1, some (sv.exec argv).2) := by
  rw [redisCommand, h]

theorem redisCommand_of_interpret {format : Format} (hf : Documented format) (sv : Server) {strCmd : String}
    {argv : List (List Char)} (h : interpret strCmd.toList = some argv) :
    redisCommand format sv strCmd = ((sv.exec argv).1, some (sv.exec argv).2) :=
  redisCommand_of_format sv (hf _ _ h)

theorem exec_push (sv : Server) (key : List Char) (values : List (List Char)) :
    (sv.exec ("RPUSH".toList :: key :: values)).1 = Function.update sv key (sv key ++ values) := by
  rw [exec_rpush]
  cases values with
  | nil =>
    rw [List.append_nil, Function.update_eq_self]
    rfl
  | cons value values => rfl

theorem readBack_of_format {format : Format} (sv : Server) {strKey : String} {T : List Char}
    (h : format (rangeCommand strKey).toList = some ["LRANGE".toList, T, "0".toList, "-1".toList]) :
    readBack format sv strKey = sv T := by
  rw [readBack, redisCommand_of_format sv h, exec_lrange]
  rfl

theorem readBack_of_interpret {format : Format} (hf : Documented format) (sv : Server) {strKey : String} {T : List Char}
    (h : interpret (rangeCommand strKey).toList = some ["LRANGE".toList, T, "0".toList, "-1".toList]) :
    readBack format sv strKey = sv T :=
  readBack_of_format sv (hf _ _ h)

theorem length_le_pushes (format : Format) (strKey : String) (sv : Server) (ds : List String) (key : List Char) :
    (sv key).length ≤ (pushes format strKey sv ds key).length := by
  induction ds generalizing sv with
  | nil => exact Nat.le_refl _
  | cons d ds ih =>
    exact (length_le_redisCommand format sv (pushCommand strKey d) key).trans (ih _)

section PlainKey

variable {strKey : String} (hkey : strKey ≠ "") (hspace : ' ' ∉ strKey.toList) (hnul : NulFree strKey.toList)
  (hpct : '%' ∉ strKey.toList)
include hkey hspace hnul hpct

theorem interpret_rangeCommand :
    interpret (rangeCommand strKey).toList = some ["LRANGE".toList, strKey.toList, "0".toList, "-1".toList] := by
  have hne : strKey.toList ≠ [] := fun h => hkey (String.toList_eq_nil_iff.mp h)
  rw [toList_rangeCommand, c_str_eq_self.mpr hnul]
  exact interpret_range_of_plain hne hspace hpct

theorem interpret_pushCommand {d : String} (hd : NulFree d.toList) :
    interpret (pushCommand strKey d).toList =
      (interpret d.toList).map fun values => "RPUSH".toList :: strKey.toList :: values := by
  have hne : strKey.toList ≠ [] := fun h => hkey (String.toList_eq_nil_iff.mp h)
  rw [toList_pushCommand _ _ hd, c_str_eq_self.mpr hnul]
  exact interpret_push hne hspace hpct d.toList

/-- Words are stored as they are. -/
theorem pushes_of_plainWord {format : Format} (hf : Documented format) (sv : Server) {ds : List String}
    (hds : ∀ d ∈ ds, NulFree d.toList) (hwords : ∀ d ∈ ds, PlainWord d.toList) :
    pushes format strKey sv ds strKey.toList = sv strKey.toList ++ ds.map String.toList := by
  induction ds generalizing sv with
  | nil => exact (List.append_nil _).symm
  | cons d ds ih =>
    obtain ⟨hd, hds⟩ := List.forall_mem_cons.mp hds
    obtain ⟨hword, hwords⟩ := List.forall_mem_cons.mp hwords
    have hcmd : interpret (pushCommand strKey d).toList = some ["RPUSH".toList, strKey.toList, d.toList] := by
      rw [interpret_pushCommand hkey hspace hnul hpct hd, interpret_plainWord hword]
      rfl
    have hstep : (redisCommand format sv (pushCommand strKey d)).1 =
        Function.update sv strKey.toList (sv strKey.toList ++ [d.toList]) := by
      rw [redisCommand_of_interpret hf sv hcmd, exec_push]
    rw [pushes_cons, hstep, ih _ hds hwords, Function.update_self, List.append_assoc]
    rfl

end PlainKey

/-- A library that takes a format it can make nothing of for a read of another list. -/
def strayFormat : Format := fun s => (interpret s).orElse fun _ => some ["LRANGE".toList, " ".toList, "0".toList, "-1".toList]

theorem documented_strayFormat : Documented strayFormat := by
  intro s argv h
  rw [strayFormat, h]
  rfl

/-- What a text adds to its list. -/
def values (d : String) : List (List Char) := (interpret d.toList).getD []

theorem pushes_strayFormat {strKey : String} (hkey : strKey ≠ "") (hspace : ' ' ∉ strKey.toList)
    (hnul : NulFree strKey.toList) (hpct : '%' ∉ strKey.toList) (sv : Server) {ds : List String}
    (hds : ∀ d ∈ ds, NulFree d.toList) :
    pushes strayFormat strKey sv ds strKey.toList = sv strKey.toList ++ ds.flatMap values := by
  induction ds generalizing sv with
  | nil => exact (List.append_nil _).symm
  | cons d ds ih =>
    obtain ⟨hd, hds⟩ := List.forall_mem_cons.mp hds
    have hcmd := interpret_pushCommand hkey hspace hnul hpct hd
    have hstep : (redisCommand strayFormat sv (pushCommand strKey d)).1 strKey.toList = sv strKey.toList ++ values d := by
      cases hint : interpret d.toList with
      | some vs =>
        rw [hint] at hcmd
        rw [redisCommand_of_interpret documented_strayFormat sv hcmd, exec_push, Function.update_self, values, hint]
        rfl
      | none =>
        rw [hint] at hcmd
        have hstray : strayFormat (pushCommand strKey d).toList =
            some ["LRANGE".toList, " ".toList, "0".toList, "-1".toList] := by
          rw [strayFormat, hcmd]
          rfl
        rw [redisCommand_of_format sv hstray, exec_lrange, values, hint]
        exact (List.append_nil _).symm
    rw [pushes_cons, ih _ hds, hstep, List.flatMap_cons, List.append_assoc]

/-- A list that is made of no more than one part of each of its members. -/
theorem eq_singleton_of_flatMap_eq {α : Type} {f : α → List (List Char)} {g : α → List Char} {xs : List α}
    (hle : ∀ x ∈ xs, (f x).length ≤ 1) (h : xs.flatMap f = xs.map g) : ∀ x ∈ xs, f x = [g x] := by
  induction xs with
  | nil => nofun
  | cons x xs ih =>
    obtain ⟨hx, hxs⟩ := List.forall_mem_cons.mp hle
    have hshort : (xs.flatMap f).length ≤ xs.length := by
      clear h ih hle
      induction xs with
      | nil => exact Nat.le_refl _
      | cons y ys ih =>
        obtain ⟨hy, hys⟩ := List.forall_mem_cons.mp hxs
        have := ih hys
        rw [List.flatMap_cons, List.length_append, List.length_cons]
        omega
    rw [List.flatMap_cons, List.map_cons] at h
    cases hfx : f x with
    | nil =>
      have hlen := congrArg List.length h
      rw [hfx, List.nil_append, List.length_cons, List.length_map] at hlen
      omega
    | cons y ys =>
      rw [hfx] at hx h
      have hys : ys = [] := by
        rw [List.length_cons] at hx
        exact List.length_eq_zero_iff.mp (by omega)
      rw [hys, List.singleton_append] at h
      obtain ⟨hy, hrest⟩ := List.cons.inj h
      refine List.forall_mem_cons.mpr ⟨by rw [hfx, hys, hy], ih hxs hrest⟩

/-- Texts that come back from their parts are words. -/
theorem plainWord_of_flatMap {ds : List String} (h : ds.flatMap values = ds.map String.toList) :
    ∀ d ∈ ds, PlainWord d.toList := by
  have hpart : ∀ t ∈ ds.flatMap values, t ≠ [] ∧ ' ' ∉ t := by
    intro t ht
    obtain ⟨d, -, ht⟩ := List.mem_flatMap.mp ht
    rw [values, interpret] at ht
    cases hplain : plain d.toList with
    | none =>
      rw [hplain] at ht
      cases ht
    | some s =>
      rw [hplain] at ht
      obtain ⟨hne, hspace, -⟩ := mem_strtok ht
      exact ⟨hne, hspace⟩
  have hword : ∀ d ∈ ds, d.toList ≠ [] ∧ ' ' ∉ d.toList := by
    intro d hd
    apply hpart d.toList
    rw [h]
    exact List.mem_map_of_mem hd
  have hone : ∀ d ∈ ds, (values d).length ≤ 1 := by
    intro d hd
    rw [values, interpret]
    cases hplain : plain d.toList with
    | none => exact Nat.zero_le _
    | some s =>
      have hs := plain_le hplain
      have hspace : ' ' ∉ s := fun hmem => (hword d hd).2 (hs.2.2 ' ' hmem)
      show (strtok ' ' s).length ≤ 1
      rw [strtok_of_not_mem hspace (hs.2.1 (hword d hd).1)]
      exact Nat.le_refl 1
  intro d hd
  have hvalues := eq_singleton_of_flatMap_eq hone h d hd
  apply plainWord_of_interpret
  cases hint : interpret d.toList with
  | none =>
    rw [values, hint] at hvalues
    cases hvalues
  | some vs =>
    rw [values, hint] at hvalues
    exact congrArg some hvalues

/-- Another list is read if the key is cut short or a percent sign is taken out of it. -/
theorem strayFormat_range {strKey : String} (hc : c_str strKey ≠ "") (hspace : ' ' ∉ strKey.toList)
    (h : ¬ (NulFree strKey.toList ∧ '%' ∉ strKey.toList)) :
    ∃ T, T ≠ strKey.toList ∧
      strayFormat (rangeCommand strKey).toList = some ["LRANGE".toList, T, "0".toList, "-1".toList] := by
  have hne : (c_str strKey).toList ≠ [] := fun he => hc (String.toList_eq_nil_iff.mp he)
  have hsub : ∀ c ∈ (c_str strKey).toList, c ∈ strKey.toList := by
    intro c hmem
    rw [c_str, String.toList_ofList] at hmem
    exact (List.takeWhile_sublist _).subset hmem
  cases hint : interpret (rangeCommand strKey).toList with
  | none =>
    refine ⟨" ".toList, fun he => hspace (he ▸ List.mem_cons_self), ?_⟩
    rw [strayFormat, hint]
    rfl
  | some argv =>
    rw [toList_rangeCommand] at hint
    obtain ⟨T, rfl, hmem, hlt⟩ := interpret_range hne (fun hs => hspace (hsub ' ' hs)) hint
    refine ⟨T, ?_, ?_⟩
    · rintro rfl
      by_cases hnul : NulFree strKey.toList
      · rw [c_str_eq_self.mpr hnul] at hlt
        exact h ⟨hnul, fun hpct => Nat.lt_irrefl _ (hlt hpct)⟩
      · exact hnul fun h0 => nulFree_c_str strKey (hmem _ h0)
    · rw [strayFormat, toList_rangeCommand, hint]
      rfl

theorem readBack_of_c_str_empty {format : Format} (hf : Documented format) (sv : Server) {strKey : String}
    (h : c_str strKey = "") : readBack format sv strKey = [] := by
  have hint : interpret (rangeCommand strKey).toList = some ["LRANGE".toList, "0".toList, "-1".toList] := by
    rw [rangeCommand, h]
    decide
  rw [readBack, redisCommand_of_interpret hf sv hint]
  rfl

/-- A list that is read must not be longer than what was saved. -/
theorem length_le_of_readBack {sv : Server} {strKey : String} {ds : List String} {T : List Char}
    (hrange : strayFormat (rangeCommand strKey).toList = some ["LRANGE".toList, T, "0".toList, "-1".toList])
    (h : readBack strayFormat (pushes strayFormat strKey sv ds) strKey = ds.map String.toList) :
    (sv T).length ≤ ds.length := by
  rw [readBack_of_format _ hrange] at h
  have hlen := length_le_pushes strayFormat strKey sv ds T
  rwa [h, List.length_map] at hlen

/-- With every client library that does what is known of it, and every server, the texts
are read back if and only if neither the key nor the texts hold anything to interpret. A
key that is empty for the library reads nothing. -/
theorem roundTrip_iff (a : InitArgs) (strKey : String) (ds : List String) (hkey : strKey ≠ "")
    (hspace : ' ' ∉ strKey.toList) (hds : ∀ d ∈ ds, NulFree d.toList) :
    (∀ format, Documented format → ∀ sv : Server, sv strKey.toList = [] → RoundTrip format a sv strKey ds) ↔
      (NulFree strKey.toList ∧ '%' ∉ strKey.toList ∧ ∀ d ∈ ds, PlainWord d.toList) ∨ (c_str strKey = "" ∧ ds = []) := by
  simp only [roundTrip_iff_readBack]
  constructor
  · intro h
    have hstray := h strayFormat documented_strayFormat
    by_cases hc : c_str strKey = ""
    · have hnone := hstray (fun _ => []) rfl
      rw [readBack_of_c_str_empty documented_strayFormat _ hc] at hnone
      exact .inr ⟨hc, List.map_eq_nil_iff.mp hnone.symm⟩
    by_cases hplain : NulFree strKey.toList ∧ '%' ∉ strKey.toList
    · obtain ⟨hnul, hpct⟩ := hplain
      have hback := hstray (fun _ => []) rfl
      rw [readBack_of_interpret documented_strayFormat _ (interpret_rangeCommand hkey hspace hnul hpct),
        pushes_strayFormat hkey hspace hnul hpct _ hds, List.nil_append] at hback
      exact .inl ⟨hnul, hpct, plainWord_of_flatMap hback⟩
    · -- the list that is read instead has too much in it
      exfalso
      obtain ⟨T, hT, hrange⟩ := strayFormat_range hc hspace hplain
      have hfull := hstray (Function.update (fun _ => []) T (List.replicate (ds.length + 1) []))
        (Function.update_of_ne (Ne.symm hT) _ _)
      have hlen := length_le_of_readBack hrange hfull
      rw [Function.update_self, List.length_replicate] at hlen
      omega
  · rintro (⟨hnul, hpct, hwords⟩ | ⟨hc, rfl⟩) format hf sv habsent
    · rw [readBack_of_interpret hf _ (interpret_rangeCommand hkey hspace hnul hpct),
        pushes_of_plainWord hkey hspace hnul hpct hf sv hds hwords, habsent]
      rfl
    · exact readBack_of_c_str_empty hf _ hc

theorem roundTrip_alarm :
    "alarm" ≠ "" ∧ ' ' ∉ "alarm".toList ∧ (∀ d ∈ ["1|0", "50%"], NulFree d.toList) ∧
    ((∀ format, Documented format → ∀ sv : Server, sv "alarm".toList = [] →
        RoundTrip format localArgs sv "alarm" ["1|0", "50%"]) ↔
      (NulFree "alarm".toList ∧ '%' ∉ "alarm".toList ∧ ∀ d ∈ ["1|0", "50%"], PlainWord d.toList) ∨
        (c_str "alarm" = "" ∧ ["1|0", "50%"] = [])) :=
  have hkey : "alarm" ≠ "" := by decide
  have hspace : ' ' ∉ "alarm".toList := by decide
  have hds : ∀ d ∈ ["1|0", "50%"], NulFree d.toList := by decide
  ⟨hkey, hspace, hds, roundTrip_iff localArgs "alarm" ["1|0", "50%"] hkey hspace hds⟩

/-- With every client library, a text with a space in it is read as two. -/
theorem not_roundTrip_space :
    Documented interpret ∧ ∀ format, Documented format → ¬ RoundTrip format localArgs (fun _ => []) "alarm" ["a b"] := by
  refine ⟨fun _ _ h => h, fun format hf h => ?_⟩
  have hback := (roundTrip_iff_readBack format localArgs (fun _ => []) "alarm" ["a b"]).mp h
  have hpush : interpret (pushCommand "alarm" "a b").toList =
      some ["RPUSH".toList, "alarm".toList, "a".toList, "b".toList] := by decide
  have hrange : interpret (rangeCommand "alarm").toList =
      some ["LRANGE".toList, "alarm".toList, "0".toList, "-1".toList] := by decide
  rw [readBack_of_interpret hf _ hrange] at hback
  have htwo : pushes format "alarm" (fun _ => []) ["a b"] "alarm".toList = ["a".toList, "b".toList] := by
    rw [pushes, List.foldl_cons, List.foldl_nil, redisCommand_of_interpret hf _ hpush, exec_push, Function.update_self,
      List.nil_append]
  rw [htwo] at hback
  exact absurd (congrArg List.length hback) (by decide)

end Perception.RedisDb
