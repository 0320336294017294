import EngSocket.Binding.Register
import Mathlib.Data.List.Infix

/-!
# The tables of the classes

The registry leads from names to metatables, and each metatable to a table with weak
values of its own. Every function of `LuaPlus<T>` that makes or changes tables keeps
them so (`EngSocket.LuaPlus.Heap`), and loses no userdata on the way
(`EngSocket.LuaPlus.Keeps`).
-/

namespace EngSocket

open Lua (Value Error State)

/-- The class that a name is for, if scripts leave the name of `CLuaMsg` alone. -/
def ScriptClass.of (className : String) : ScriptClass :=
  if className = ScriptClass.CLuaMsg.className then .CLuaMsg else .SocketObject

/-- The class and the name of a function that scripts can call. -/
def Closure.subject : Closure → Option (ScriptClass × String)
  | .new_T T className | .thunk T _ className => some (T, className)
  | .gc_T _ | .tostring_T _ _ => none

namespace LuaPlus

def Registered (className : String) (mt : Nat) (L : State Closure) : Prop :=
  (L.tables L.registry).fields (.string className) = .table mt

def field (h : Nat) (name : String) (L : State Closure) : Value :=
  (L.tables h).fields (.string name)

/-- Where a metatable leads to from an object. -/
def entry (mt obj : Nat) (L : State Closure) : Value :=
  match field mt "userdata" L with
  | .table w => (L.tables w).fields (.lightuserdata obj)
  | _ => .nil

/-- A table with weak values. -/
structure Weak (w : Nat) (L : State Closure) : Prop where
  made : w < L.nextTable
  own : (L.tables w).metatable = some w
  mode : field w "__mode" L = .string "v"
  index : field w "__index" L = .nil
  newindex : field w "__newindex" L = .nil

structure Metatable (className : String) (mt : Nat) (L : State Closure) : Prop where
  made : mt < L.nextTable
  apart : mt ≠ L.registry
  bare : (L.tables mt).metatable = none
  gc : field mt "__gc" L = .nil ∨
    ∃ f, field mt "__gc" L = .function f ∧ L.closures[f]? = some (.gc_T (.of className))
  trash : field mt "do not trash" L = .nil
  userdata : field mt "userdata" L = .nil ∨ ∃ w, field mt "userdata" L = .table w ∧ Weak w L

/-- The registry, its metatables and their tables are all different. -/
structure Heap (L : State Closure) : Prop where
  made : L.registry < L.nextTable
  bare : (L.tables L.registry).metatable = none
  names : ∀ className, (L.tables L.registry).fields (.string className) = .nil ∨
    ∃ mt, Registered className mt L
  metatable : ∀ {className mt}, Registered className mt L → Metatable className mt L
  apart : ∀ {className other mt}, Registered className mt L → Registered other mt L →
    className = other
  own : ∀ {className other mt mt' w}, Registered className mt L → Registered other mt' L →
    field mt "userdata" L = .table w → field mt' "userdata" L = .table w → mt = mt'

/-- Names, userdata and what leads to them are as before; there may be new names. -/
structure Keeps (L M : State Closure) : Prop where
  registered : ∀ {className mt}, Registered className mt L → Registered className mt M
  fresh : ∀ {className mt}, Registered className mt M →
    Registered className mt L ∨ ∀ obj, entry mt obj M = .nil
  entry : ∀ {className mt}, Registered className mt L → ∀ obj, entry mt obj M = entry mt obj L
  gc : ∀ {className mt}, Registered className mt L → field mt "__gc" L ≠ .nil →
    field mt "__gc" M ≠ .nil
  udata : M.udata = L.udata
  nextUdata : M.nextUdata = L.nextUdata
  tmudata : M.tmudata = L.tmudata

/-- A table that no name leads to. -/
structure Unused (h : Nat) (L : State Closure) : Prop where
  registry : h ≠ L.registry
  metatable : ∀ {className mt}, Registered className mt L → mt ≠ h
  weak : ∀ {className mt}, Registered className mt L → field mt "userdata" L ≠ .table h

variable {L M : State Closure} {mt w m : Nat} {className : String} {value : Value}

/-- What each of two steps keeps both of them keep. -/
theorem Keeps.trans {N : State Closure} (first : Keeps L M) (second : Keeps M N) : Keeps L N where
  registered here := second.registered (first.registered here)
  fresh here := by
    rcases second.fresh here with old | none_
    · rcases first.fresh old with older | none_
      · exact Or.inl older
      · exact Or.inr fun obj => (second.entry old obj).trans (none_ obj)
    · exact Or.inr none_
  entry here obj := (second.entry (first.registered here) obj).trans (first.entry here obj)
  gc here some_ := second.gc (first.registered here) (first.gc here some_)
  udata := second.udata.trans first.udata
  nextUdata := second.nextUdata.trans first.nextUdata
  tmudata := second.tmudata.trans first.tmudata

/-- The fields of a table that is the same are the same. -/
theorem field_of_same {h : Nat} {name : String} (same : M.tables h = L.tables h) :
    field h name M = field h name L := by
  rw [field, same]
  rfl

/-- The handlers of a weak table are its own, so that it is read directly. -/
theorem Weak.plain (weak : Weak w L) : L.Plain w := by
  constructor <;> rw [weak.own]
  · exact weak.index
  · exact weak.newindex

/-- A weak table that nothing has touched is weak. -/
theorem Weak.of_same (weak : Weak w L) (next : L.nextTable ≤ M.nextTable)
    (same : M.tables w = L.tables w) : Weak w M where
  made := weak.made.trans_le next
  own := same ▸ weak.own
  mode := (field_of_same same).trans weak.mode
  index := (field_of_same same).trans weak.index
  newindex := (field_of_same same).trans weak.newindex

/-- An entry is looked up in the table that the metatable leads to. -/
theorem entry_of_table (leads : field mt "userdata" L = .table w) (obj : Nat) :
    entry mt obj L = (L.tables w).fields (.lightuserdata obj) := by
  rw [entry, leads]

/-- A metatable without such a table has no entries. -/
theorem entry_of_nil (none_ : field mt "userdata" L = .nil) (obj : Nat) :
    entry mt obj L = .nil := by
  rw [entry, none_]

/-- The registry does not change, metatables change only in what they have besides, and
tables with weak values only in their values. -/
structure Amends (L M : State Closure) : Prop where
  registry : M.registry = L.registry
  next : L.nextTable ≤ M.nextTable
  closures : L.closures <+: M.closures
  names : M.tables L.registry = L.tables L.registry
  weak : ∀ {className mt w}, Registered className mt L → field mt "userdata" L = .table w → Weak w M
  bare : ∀ {className mt}, Registered className mt L → (M.tables mt).metatable = none
  trash : ∀ {className mt}, Registered className mt L →
    field mt "do not trash" M = field mt "do not trash" L
  userdata : ∀ {className mt}, Registered className mt L →
    field mt "userdata" M = field mt "userdata" L
  gc : ∀ {className mt}, Registered className mt L → field mt "__gc" M = field mt "__gc" L ∨
    ∃ f, field mt "__gc" M = .function f ∧ M.closures[f]? = some (.gc_T (.of className))

/-- Amending a state registers no class and forgets none. -/
theorem Amends.registered_iff (amends : Amends L M) :
    Registered className mt M ↔ Registered className mt L := by
  unfold Registered
  rw [amends.registry, amends.names]

/-- A closure stays where it is when others are added. -/
theorem closures_of_prefix {f : Nat} {code : Closure} (extends_ : L.closures <+: M.closures)
    (here : L.closures[f]? = some code) : M.closures[f]? = some code := by
  obtain ⟨more, same⟩ := extends_
  rw [← same, List.getElem?_append_left (List.getElem?_eq_some_iff.mp here).1, here]

/-- **The invariant is kept** by whatever only amends the state. -/
theorem Heap.amend (heap : Heap L) (amends : Amends L M) : Heap M where
  made := by
    rw [amends.registry]
    exact heap.made.trans_le amends.next
  bare := by
    rw [amends.registry, amends.names]
    exact heap.bare
  names className := by
    rw [amends.registry, amends.names]
    exact (heap.names className).imp_right (Exists.imp fun _ here => amends.registered_iff.mpr here)
  metatable {className mt} here := by
    have before := amends.registered_iff.mp here
    obtain ⟨made, apart, bare, gc, trash, userdata⟩ := heap.metatable before
    refine ⟨made.trans_le amends.next, amends.registry ▸ apart, amends.bare before, ?_,
      (amends.trash before).trans trash, ?_⟩
    · rcases amends.gc before with same | filled
      · rw [same]
        exact gc.imp_right (Exists.imp fun _ filled =>
          ⟨filled.1, closures_of_prefix amends.closures filled.2⟩)
      · exact Or.inr filled
    · rw [amends.userdata before]
      exact userdata.imp_right (Exists.imp fun _ found =>
        ⟨found.1, amends.weak before found.1⟩)
  apart first second :=
    heap.apart (amends.registered_iff.mp first) (amends.registered_iff.mp second)
  own {className other mt mt' w} first second leads also := by
    have one := amends.registered_iff.mp first
    have two := amends.registered_iff.mp second
    exact heap.own one two ((amends.userdata one).symm.trans leads)
      ((amends.userdata two).symm.trans also)

/-- A class does not lose its finalizer. -/
theorem Amends.gc_some (amends : Amends L M) (here : Registered className mt L)
    (some_ : field mt "__gc" L ≠ .nil) : field mt "__gc" M ≠ .nil := by
  rcases amends.gc here with same | ⟨f, filled, -⟩
  · exact same ▸ some_
  · rw [filled]
    exact Value.noConfusion

/-- Amending that leaves the weak tables and the userdata alone keeps everything. -/
theorem Amends.keeps (amends : Amends L M) (heap : Heap L)
    (entries : ∀ {className mt w}, Registered className mt L → field mt "userdata" L = .table w →
      M.tables w = L.tables w) (udata : M.udata = L.udata)
    (nextUdata : M.nextUdata = L.nextUdata) (tmudata : M.tmudata = L.tmudata) : Keeps L M where
  registered := amends.registered_iff.mpr
  fresh here := Or.inl (amends.registered_iff.mp here)
  entry {className mt} here obj := by
    have same := amends.userdata here
    rcases (heap.metatable here).userdata with none_ | ⟨w, leads, -⟩
    · rw [entry_of_nil none_, entry_of_nil (same.trans none_)]
    · rw [entry_of_table leads, entry_of_table (same.trans leads), entries here leads]
  gc := amends.gc_some
  udata := udata
  nextUdata := nextUdata
  tmudata := tmudata

/-- The weak table of a class is neither a metatable nor the registry. -/
theorem Heap.weak_apart (heap : Heap L) (here : Registered className mt L) {other : String}
    {mt' : Nat} (also : Registered other mt' L) (leads : field mt "userdata" L = .table w) :
    Weak w L ∧ w ≠ mt' ∧ w ≠ L.registry := by
  rcases (heap.metatable here).userdata with none_ | ⟨found, leads', weak⟩
  · cases none_.symm.trans leads
  · cases leads'.symm.trans leads
    refine ⟨weak, ?_, ?_⟩
    · rintro rfl
      cases weak.own.symm.trans (heap.metatable also).bare
    · rintro rfl
      cases weak.own.symm.trans heap.bare

/-- New tables and functions, and another stack, change nothing. -/
theorem Heap.grow (heap : Heap L) (registry : M.registry = L.registry)
    (next : L.nextTable ≤ M.nextTable) (closures : L.closures <+: M.closures)
    (tables : ∀ h < L.nextTable, M.tables h = L.tables h) (udata : M.udata = L.udata)
    (nextUdata : M.nextUdata = L.nextUdata) (tmudata : M.tmudata = L.tmudata) :
    Amends L M ∧ Keeps L M := by
  have weak {className : String} {mt w : Nat} (here : Registered className mt L)
      (leads : field mt "userdata" L = .table w) : M.tables w = L.tables w :=
    tables _ (heap.weak_apart here here leads).1.made
  have metatable {className : String} {mt : Nat} (here : Registered className mt L) :
      M.tables mt = L.tables mt := tables _ (heap.metatable here).made
  have amends : Amends L M := by
    refine ⟨registry, next, closures, tables _ heap.made, fun here leads => ?_, fun here => ?_,
      fun here => ?_, fun here => ?_, fun here => Or.inl ?_⟩
    · exact (heap.weak_apart here here leads).1.of_same next (weak here leads)
    · rw [metatable here]
      exact (heap.metatable here).bare
    all_goals exact field_of_same (metatable here)
  exact ⟨amends, amends.keeps heap weak udata nextUdata tmudata⟩

/-! ## The table with weak values -/

/-- `mt.userdata = n` for a metatable that has none and a new weak table. -/
structure Lookup (mt : Nat) (L M : State Closure) : Prop where
  registry : M.registry = L.registry
  next : M.nextTable = L.nextTable + 1
  closures : M.closures = L.closures
  self : M.tables mt = (L.tables mt).set (.string "userdata") (.table L.nextTable)
  new : M.tables L.nextTable = weak L.nextTable "v"
  others : ∀ h, h ≠ mt → h ≠ L.nextTable → M.tables h = L.tables h
  udata : M.udata = L.udata
  nextUdata : M.nextUdata = L.nextUdata
  tmudata : M.tmudata = L.tmudata

namespace Lookup

theorem field_self (lookup : Lookup mt L M) : field mt "userdata" M = .table L.nextTable := by
  rw [field, lookup.self]
  exact Lua.Table.fields_set_self _ _ _

theorem field_of_ne (lookup : Lookup mt L M) {name : String} (other : name ≠ "userdata") :
    field mt name M = field mt name L := by
  rw [field, lookup.self]
  exact Lua.Table.fields_set_of_ne (fun same => other (Value.string.inj same)) _ _

/-- The table that was made is weak. -/
theorem weak_new (lookup : Lookup mt L M) : Weak L.nextTable M := by
  have made : L.nextTable < M.nextTable := by
    rw [lookup.next]
    exact Nat.lt_succ_self _
  refine ⟨made, ?_, ?_, ?_, ?_⟩ <;> try unfold field
  all_goals
    rw [lookup.new]
    rfl

/-- What was there before, the metatable apart, is as it was. -/
theorem old (lookup : Lookup mt L M) {h : Nat} (apart : h ≠ mt) (made : h < L.nextTable) :
    M.tables h = L.tables h := lookup.others h apart (Nat.ne_of_lt made)

/-- The same classes are registered. -/
theorem registered_iff (lookup : Lookup mt L M) (heap : Heap L) (here : Registered className mt L)
    {other : String} {mt' : Nat} : Registered other mt' M ↔ Registered other mt' L := by
  unfold Registered
  rw [lookup.registry, lookup.old (Ne.symm (heap.metatable here).apart) heap.made]

/-- The weak tables of other classes are as they were. -/
theorem weak_old (lookup : Lookup mt L M) (heap : Heap L) (here : Registered className mt L)
    {other : String} {mt' w : Nat} (also : Registered other mt' L)
    (leads : field mt' "userdata" L = .table w) : M.tables w = L.tables w := by
  obtain ⟨weak, apart, -⟩ := heap.weak_apart also here leads
  exact lookup.old apart weak.made

/-- The metatables are as before, but for the new table of the one. -/
theorem tables_of_ne (lookup : Lookup mt L M) (heap : Heap L) {other : String} {mt' : Nat}
    (also : Registered other mt' L) (apart : mt' ≠ mt) : M.tables mt' = L.tables mt' :=
  lookup.old apart (heap.metatable also).made

/-- A metatable leads to the new table or to where it led before. -/
theorem userdata_cases (lookup : Lookup mt L M) (heap : Heap L) {other : String} {mt' : Nat}
    (also : Registered other mt' L) {w : Nat} (leads : field mt' "userdata" M = .table w) :
    mt' = mt ∧ w = L.nextTable ∨ mt' ≠ mt ∧ field mt' "userdata" L = .table w := by
  by_cases same : mt' = mt
  · subst same
    exact Or.inl ⟨rfl, (Value.table.inj (lookup.field_self.symm.trans leads)).symm⟩
  · refine Or.inr ⟨same, ?_⟩
    exact (field_of_same (lookup.tables_of_ne heap also same)).symm.trans leads

/-- **A weak table for a class** keeps the invariant. -/
theorem heap (lookup : Lookup mt L M) (heap : Heap L) (here : Registered className mt L) :
    Heap M := by
  have next : L.nextTable ≤ M.nextTable := by
    rw [lookup.next]
    exact Nat.le_succ _
  have registry := lookup.old (Ne.symm (heap.metatable here).apart) heap.made
  constructor
  · rw [lookup.registry]
    exact heap.made.trans_le next
  · rw [lookup.registry, registry]
    exact heap.bare
  · intro name
    rw [lookup.registry, registry]
    exact (heap.names name).imp_right (Exists.imp fun _ also =>
      (lookup.registered_iff heap here).mpr also)
  · intro other mt' also
    have before := (lookup.registered_iff heap here).mp also
    obtain ⟨made, apart, bare, gc, trash, userdata⟩ := heap.metatable before
    by_cases same : mt' = mt
    · subst same
      refine ⟨made.trans_le next, lookup.registry ▸ apart, ?_, ?_, ?_,
        Or.inr ⟨_, lookup.field_self, lookup.weak_new⟩⟩
      · rw [lookup.self]
        exact bare
      · rw [lookup.field_of_ne (by decide), lookup.closures]
        exact gc
      · rw [lookup.field_of_ne (by decide)]
        exact trash
    · have kept := lookup.tables_of_ne heap before same
      refine ⟨made.trans_le next, lookup.registry ▸ apart, kept ▸ bare, ?_,
        (field_of_same kept).trans trash, ?_⟩
      · rw [field_of_same kept, lookup.closures]
        exact gc
      · rw [field_of_same kept]
        exact userdata.imp_right (Exists.imp fun _ found =>
          ⟨found.1, found.2.of_same next (lookup.weak_old heap here before found.1)⟩)
  · intro name other mt' first second
    exact heap.apart ((lookup.registered_iff heap here).mp first)
      ((lookup.registered_iff heap here).mp second)
  · intro name other mt1 mt2 w first second leads also
    have one := (lookup.registered_iff heap here).mp first
    have two := (lookup.registered_iff heap here).mp second
    rcases lookup.userdata_cases heap one leads with ⟨rfl, rfl⟩ | ⟨-, before⟩
    · rcases lookup.userdata_cases heap two also with ⟨rfl, -⟩ | ⟨-, before⟩
      · rfl
      · exact absurd (heap.weak_apart two two before).1.made (Nat.lt_irrefl _)
    · rcases lookup.userdata_cases heap two also with ⟨-, rfl⟩ | ⟨-, too⟩
      · exact absurd (heap.weak_apart one one before).1.made (Nat.lt_irrefl _)
      · exact heap.own one two before too

/-- A class that had no weak table had no entries, so that nothing is lost. -/
theorem keeps (lookup : Lookup mt L M) (heap : Heap L) (here : Registered className mt L)
    (none_ : field mt "userdata" L = .nil) : Keeps L M where
  registered := (lookup.registered_iff heap here).mpr
  fresh also := Or.inl ((lookup.registered_iff heap here).mp also)
  entry {other mt'} also obj := by
    by_cases same : mt' = mt
    · subst same
      rw [entry_of_table lookup.field_self, entry_of_nil none_, lookup.new]
      rfl
    · have kept : field mt' "userdata" M = field mt' "userdata" L :=
        field_of_same (lookup.tables_of_ne heap also same)
      rcases (heap.metatable also).userdata with absent | ⟨w, leads, -⟩
      · rw [entry_of_nil absent, entry_of_nil (kept.trans absent)]
      · rw [entry_of_table leads, entry_of_table (kept.trans leads),
          lookup.weak_old heap here also leads]
  gc {other mt'} also some_ := by
    by_cases same : mt' = mt
    · subst same
      rw [lookup.field_of_ne (by decide)]
      exact some_
    · rw [field_of_same (lookup.tables_of_ne heap also same)]
      exact some_
  udata := lookup.udata
  nextUdata := lookup.nextUdata
  tmudata := lookup.tmudata

end Lookup

/-- **`subtable` of a metatable** leads to its table with weak values, which is made if
it is the first time. -/
theorem Heap.subtable (heap : Heap L) (here : Registered className mt L) {tindex : Int}
    (holds : L.Holds tindex (.table mt)) :
    ∃ M w, subtable tindex "userdata" "v" L = .ok M ∧ M.stack = .table w :: L.stack ∧ Heap M ∧
      Keeps L M ∧ M.closures = L.closures ∧ M.registry = L.registry ∧
        field mt "userdata" M = .table w := by
  obtain ⟨made, -, bare, -, -, userdata⟩ := heap.metatable here
  rcases userdata with absent | ⟨w, leads, -⟩
  · have lookup : Lookup mt L { L with
        tables := Function.update (Function.update L.tables L.nextTable (weak L.nextTable "v")) mt
          ((L.tables mt).set (.string "userdata") (.table L.nextTable))
        nextTable := L.nextTable + 1
        stack := .table L.nextTable :: L.stack } := by
      refine ⟨rfl, rfl, rfl, Function.update_self _ _ _, ?_, fun h apart other => ?_, rfl, rfl, rfl⟩
      · change Function.update (Function.update L.tables L.nextTable _) mt _ L.nextTable = _
        rw [Function.update_of_ne (Ne.symm (Nat.ne_of_lt made)), Function.update_self]
      · change Function.update (Function.update L.tables L.nextTable _) mt _ h = _
        rw [Function.update_of_ne apart, Function.update_of_ne other]
    exact ⟨_, _, subtable_new holds bare made absent, rfl, lookup.heap heap here,
      lookup.keeps heap here absent, rfl, rfl, lookup.field_self⟩
  · obtain ⟨amends, keeps⟩ := @Heap.grow L (L.push (.table w)) heap rfl (Nat.le_refl _)
      (List.prefix_refl _) (fun _ _ => rfl) rfl rfl rfl
    exact ⟨_, w, subtable_found holds (State.plain_of_none bare) leads Value.noConfusion, rfl,
      heap.amend amends, keeps, rfl, rfl, leads⟩

end LuaPlus

end EngSocket
