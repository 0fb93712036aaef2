import Perception.Lib.SortedMap
import Mathlib.Data.String.Basic

/-!
# The JSON values of the configuration

Values of the JSON library and the accesses that the program makes. `operator[]` on a
value that is not const turns null into an empty container and inserts a missing member;
a chain of such accesses changes the tree it walks through, also when it then throws.
-/
namespace Perception.Cfg

set_option autoImplicit false

open Perception.Lib

/-- The members of an object are the entries of a `std::map`, in the order of the keys. -/
inductive Json where
  | null
  | boolean (value : Bool)
  | number (text : String)
  | string (value : String)
  | array (elements : List Json)
  | object (members : List (String × Json))

instance : Inhabited Json := ⟨.null⟩

/-- What the library throws, with its error ids. `undefined` is no exception: the program
goes on without defined behaviour, or an assertion of the library ends it. -/
inductive Exn where
  | parse_error
  | type_error (id : Nat)
  | invalid_iterator (id : Nat)
  | undefined
  deriving DecidableEq

namespace Json

def isObject : Json → Bool
  | .object _ => true
  | _ => false

/-- What iteration visits, with `key()` where there is one: members of an object,
elements of an array, nothing for null, and any other value once. -/
def items : Json → List (Option String × Json)
  | .null => []
  | .object m => m.map fun e => (some e.1, e.2)
  | .array xs => xs.map fun x => (none, x)
  | j => [(none, j)]

def elems (j : Json) : List Json := j.items.map Prod.snd

/-- The value with what iteration by reference visits put in place of the old. -/
def withElems : Json → List Json → Json
  | .object m, vs => .object (List.zipWith (fun e v => (e.1, v)) m vs)
  | .array _, vs => .array vs
  | .null, _ => .null
  | j, vs => vs.headD j

/-- `key()` of an iterator. -/
def keyOf : Option String → Except Exn String
  | some k => .ok k
  | none => .error (.invalid_iterator 207)

/-- Conversion to `std::string`. -/
def toStr : Json → Except Exn String
  | .string s => .ok s
  | _ => .error (.type_error 302)

def find? : Json → String → Option Json
  | .object m, k => SortedMap.find? m k
  | _, _ => none

/-- What `j[k]` refers to after the access. -/
def get (j : Json) (k : String) : Json := (j.find? k).getD .null

/-- `j[k]` on a copy that is not looked at again. -/
def child : Json → String → Except Exn Json
  | .null, _ => .ok .null
  | .object m, k => .ok ((SortedMap.find? m k).getD .null)
  | _, _ => .error (.type_error 305)

/-- `j[k]` on a const value: a missing member fails an assertion. -/
def constChild : Json → String → Except Exn Json
  | .object m, k =>
    match SortedMap.find? m k with
    | some v => .ok v
    | none => .error .undefined
  | _, _ => .error (.type_error 305)

/-- `string(j[k])` on a copy. -/
def attr (j : Json) (k : String) : Except Exn String := j.child k >>= toStr

/-- `j[k] = v`. -/
def set : Json → String → Json → Except Exn Json
  | .null, k, v => .ok (.object [(k, v)])
  | .object m, k, v => .ok (.object (SortedMap.insert m k v))
  | _, _, _ => .error (.type_error 305)

/-- One `operator[]` of a chain. -/
inductive Access where
  | key (k : String)
  | idx (n : Nat)

/-- `f` on what a chain of accesses refers to: its result, and the tree afterwards. -/
def onPath {α : Type} (f : Json → Except Exn α × Json) : List Access → Json → Except Exn α × Json
  | [], j => f j
  | .key k :: p, .null =>
    let (r, v) := onPath f p .null
    (r, .object [(k, v)])
  | .key k :: p, .object m =>
    let (r, v) := onPath f p ((SortedMap.find? m k).getD .null)
    (r, .object (SortedMap.insert m k v))
  | .idx n :: p, .null =>
    let (r, v) := onPath f p .null
    (r, .array (List.replicate n .null ++ [v]))
  | .idx n :: p, .array xs =>
    let xs := xs ++ List.replicate (n + 1 - xs.length) .null
    let (r, v) := onPath f p (xs.getD n .null)
    (r, .array (xs.set n v))
  | _ :: _, j => (.error (.type_error 305), j)

/-- Read what a chain refers to. -/
def read (p : List Access) (j : Json) : Except Exn Json × Json := onPath (fun v => (.ok v, v)) p j

/-- Read it as a string. -/
def readStr (p : List Access) (j : Json) : Except Exn String × Json :=
  onPath (fun v => (v.toStr, v)) p j

@[simp] theorem find?_object (m : List (String × Json)) (k : String) :
    (object m).find? k = SortedMap.find? m k := rfl

@[simp] theorem elems_null : elems .null = [] := rfl

@[simp] theorem elems_array (xs : List Json) : elems (.array xs) = xs := by
  simp [elems, items, Function.comp_def]

theorem elems_object (m : List (String × Json)) : elems (.object m) = m.map Prod.snd := by
  simp [elems, items, Function.comp_def]

/-- A string attribute is a string member of an object. -/
theorem attr_eq_ok {j : Json} {k s : String} : j.attr k = .ok s ↔ j.find? k = some (.string s) := by
  cases j with
  | object m =>
    show toStr ((SortedMap.find? m k).getD .null) = .ok s ↔ SortedMap.find? m k = some (.string s)
    cases SortedMap.find? m k with
    | none => simp [toStr]
    | some v => cases v <;> simp [toStr]
  | null => simp [attr, child, toStr, find?, bind, Except.bind]
  | boolean b => simp [attr, child, find?, bind, Except.bind]
  | number t => simp [attr, child, find?, bind, Except.bind]
  | string t => simp [attr, child, find?, bind, Except.bind]
  | array xs => simp [attr, child, find?, bind, Except.bind]

theorem get_of_find? {j v : Json} {k : String} (h : j.find? k = some v) : j.get k = v := by
  rw [get, h]
  rfl

theorem constChild_eq_ok {j v : Json} {k : String} : j.constChild k = .ok v ↔ j.find? k = some v := by
  cases j with
  | object m =>
    rw [constChild, find?_object]
    cases SortedMap.find? m k <;> simp
  | _ => simp [constChild, find?]

theorem child_eq_ok {j v : Json} {k : String} (h : j.child k = .ok v) : v = j.get k := by
  cases j <;> simp_all [child, get, find?]

/-- Iterating by reference without changing anything. -/
theorem withElems_elems (j : Json) : j.withElems j.elems = j := by
  cases j with
  | object m =>
    rw [elems_object, withElems]
    refine congrArg object ?_
    induction m with
    | nil => rfl
    | cons e m ih => simp [ih]
  | array xs => rw [elems_array, withElems]
  | null => rfl
  | boolean b => rfl
  | number t => rfl
  | string s => rfl

/-- The members of an object come in the order of their keys. -/
def Sorted (j : Json) : Prop := ∀ m, j = .object m → SortedMap.Sorted m

/-- The members of every object in the value come in the order of their keys. -/
inductive WellFormed : Json → Prop where
  | null : WellFormed .null
  | boolean (value : Bool) : WellFormed (.boolean value)
  | number (text : String) : WellFormed (.number text)
  | string (value : String) : WellFormed (.string value)
  | array (xs : List Json) : (∀ x ∈ xs, WellFormed x) → WellFormed (.array xs)
  | object (m : List (String × Json)) : SortedMap.Sorted m → (∀ e ∈ m, WellFormed e.2) → WellFormed (.object m)

theorem WellFormed.sorted {m : List (String × Json)} (h : (Json.object m).WellFormed) : SortedMap.Sorted m := by
  cases h
  assumption

theorem WellFormed.find? {j v : Json} {k : String} (h : j.WellFormed) (hf : j.find? k = some v) :
    v.WellFormed := by
  cases h with
  | object m _ hm => exact hm _ (SortedMap.mem_of_find? hf)
  | _ => cases hf

theorem WellFormed.get {j : Json} (h : j.WellFormed) (k : String) : (j.get k).WellFormed := by
  unfold Json.get
  cases hf : j.find? k with
  | none => exact .null
  | some v => exact h.find? hf

theorem WellFormed.elems {j elm : Json} (h : j.WellFormed) (helm : elm ∈ j.elems) : elm.WellFormed := by
  cases h with
  | array xs hxs => exact hxs _ (elems_array xs ▸ helm)
  | object m _ hm =>
    rw [elems_object] at helm
    obtain ⟨e, he, rfl⟩ := List.mem_map.mp helm
    exact hm e he
  | null => cases helm
  | boolean b =>
    obtain rfl := List.mem_singleton.mp helm
    exact .boolean b
  | number t =>
    obtain rfl := List.mem_singleton.mp helm
    exact .number t
  | string s =>
    obtain rfl := List.mem_singleton.mp helm
    exact .string s

theorem WellFormed.members {m : List (String × Json)} (h : (Json.object m).WellFormed) : ∀ e ∈ m, e.2.WellFormed := by
  cases h
  assumption

theorem WellFormed.set {j v j' : Json} {k : String} (hj : j.WellFormed) (hv : v.WellFormed)
    (h : j.set k v = .ok j') : j'.WellFormed := by
  cases j with
  | null =>
    cases h
    exact .object _ (List.pairwise_singleton _ _) (List.forall_mem_singleton.mpr hv)
  | object m =>
    cases h
    refine .object _ (hj.sorted.insert k v) fun e he => ?_
    rcases SortedMap.mem_insert he with rfl | he
    · exact hv
    · exact hj.members e he
  | _ => cases h

/-- Well-formed values put in place of the old. -/
theorem WellFormed.withElems {j : Json} (hj : j.WellFormed) {vs : List Json} (hvs : ∀ v ∈ vs, v.WellFormed) :
    (j.withElems vs).WellFormed := by
  have hzip : ∀ (m : List (String × Json)) (vs : List Json), ∀ e ∈ List.zipWith (fun e v => (e.1, v)) m vs,
      (∃ e' ∈ m, e'.1 = e.1) ∧ e.2 ∈ vs := by
    intro m
    induction m with
    | nil => simp
    | cons e m ih =>
      intro vs e' he'
      cases vs with
      | nil => cases he'
      | cons v vs =>
        rcases List.mem_cons.mp he' with rfl | he'
        · exact ⟨⟨e, List.mem_cons_self, rfl⟩, List.mem_cons_self⟩
        · obtain ⟨⟨e₀, he₀, heq⟩, hv⟩ := ih vs e' he'
          exact ⟨⟨e₀, List.mem_cons_of_mem e he₀, heq⟩, List.mem_cons_of_mem v hv⟩
  have hsorted : ∀ (m : List (String × Json)) (vs : List Json), SortedMap.Sorted m →
      SortedMap.Sorted (List.zipWith (fun e v => (e.1, v)) m vs) := by
    intro m
    induction m with
    | nil => exact fun _ _ => SortedMap.sorted_nil
    | cons e m ih =>
      intro vs hm
      obtain ⟨hlt, hm⟩ := List.pairwise_cons.mp hm
      cases vs with
      | nil => exact SortedMap.sorted_nil
      | cons v vs =>
        refine List.pairwise_cons.mpr ⟨fun e' he' => ?_, ih vs hm⟩
        obtain ⟨⟨e₀, he₀, heq⟩, -⟩ := hzip m vs e' he'
        exact heq ▸ hlt e₀ he₀
  have hhead : (vs.headD j).WellFormed := by
    cases vs with
    | nil => exact hj
    | cons v vs => exact hvs v List.mem_cons_self
  cases j with
  | object m => exact .object _ (hsorted m vs hj.sorted) fun e he => hvs e.2 (hzip m vs e he).2
  | array xs => exact .array vs hvs
  | null => exact .null
  | _ => exact hhead

/-- What `m_jRuntimeSysCfg` is: null, or an object. -/
def Document : Json → Prop
  | .null => True
  | .object m => SortedMap.Sorted m
  | _ => False

/-- A member is set. -/
def put : Json → String → Json → Json
  | .object m, k, v => .object (SortedMap.insert m k v)
  | _, k, v => .object [(k, v)]

theorem Document.find?_put {j : Json} (h : j.Document) (k : String) (v : Json) (k' : String) :
    (j.put k v).find? k' = if k' = k then some v else j.find? k' := by
  cases j with
  | null => rfl
  | object m => exact SortedMap.find?_insert m k v k'
  | _ => cases h

theorem Document.put {j : Json} (h : j.Document) (k : String) (v : Json) : (j.put k v).Document := by
  cases j with
  | null => exact List.pairwise_singleton _ _
  | object m => exact SortedMap.Sorted.insert h k v
  | _ => cases h

theorem Document.sorted {j : Json} (h : j.Document) : j.Sorted := by
  rintro m rfl
  exact h

/-- A chain of accesses on a document works on the member and puts it back. -/
theorem Document.onPath_key {α : Type} {j : Json} (h : j.Document) (f : Json → Except Exn α × Json)
    (k : String) (p : List Access) :
    onPath f (.key k :: p) j = ((onPath f p (j.get k)).1, j.put k (onPath f p (j.get k)).2) := by
  cases j with
  | null => rfl
  | object m => rfl
  | _ => cases h

end Json

end Perception.Cfg
