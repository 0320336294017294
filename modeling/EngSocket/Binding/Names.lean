import EngSocket.Binding.Heap

/-!
# Names

A name that is registered gets a metatable, which stays its own. Registering a name once
more, for a class that the name is for, fills the same metatable again, and the userdata
that are there keep it (`EngSocket.LuaPlus.Heap.registeSocketClassL`).
-/

namespace EngSocket

open Lua (Value Error State)

namespace LuaPlus

variable {L M : State Closure} {mt w m : Nat} {className : String}

theorem Amends.unused (amends : Amends L M) {h : Nat} (unused : Unused h L) : Unused h M where
  registry := amends.registry ▸ unused.registry
  metatable here := unused.metatable (amends.registered_iff.mp here)
  weak here := by
    have before := amends.registered_iff.mp here
    rw [amends.userdata before]
    exact unused.weak before

/-- A new table has no name. -/
theorem Heap.unused_of_le (heap : Heap L) {h : Nat} (new : L.nextTable ≤ h) : Unused h L where
  registry := Ne.symm (Nat.ne_of_lt (heap.made.trans_le new))
  metatable here := Nat.ne_of_lt ((heap.metatable here).made.trans_le new)
  weak here leads :=
    absurd ((heap.weak_apart here here leads).1.made.trans_le new) (Nat.lt_irrefl _)

/-- A name that is new has a new metatable, which is empty. -/
structure Names (className : String) (L M : State Closure) : Prop where
  registry : M.registry = L.registry
  next : M.nextTable = L.nextTable + 1
  closures : M.closures = L.closures
  self : M.tables L.registry = (L.tables L.registry).set (.string className) (.table L.nextTable)
  new : M.tables L.nextTable = .empty
  others : ∀ h, h ≠ L.registry → h ≠ L.nextTable → M.tables h = L.tables h
  udata : M.udata = L.udata
  nextUdata : M.nextUdata = L.nextUdata
  tmudata : M.tmudata = L.tmudata

namespace Names

/-- Registered is the new name, and what was registered before. -/
theorem registered_cases (names : Names className L M) {other : String} :
    Registered other mt M ↔
      other = className ∧ mt = L.nextTable ∨ other ≠ className ∧ Registered other mt L := by
  unfold Registered
  rw [names.registry, names.self]
  by_cases same : other = className
  · subst same
    rw [Lua.Table.fields_set_self, Value.table.injEq]
    exact ⟨fun new => Or.inl ⟨rfl, new.symm⟩, by
      rintro (⟨-, rfl⟩ | ⟨apart, -⟩)
      · rfl
      · exact absurd rfl apart⟩
  · rw [Lua.Table.fields_set_of_ne fun equal => same (Value.string.inj equal)]
    exact ⟨fun old => Or.inr ⟨same, old⟩, by
      rintro (⟨equal, -⟩ | ⟨-, old⟩)
      · exact absurd equal same
      · exact old⟩

/-- The metatables of other classes are as they were. -/
theorem old (names : Names className L M) (heap : Heap L) {other : String}
    (here : Registered other mt L) : M.tables mt = L.tables mt :=
  names.others mt (heap.metatable here).apart (Nat.ne_of_lt (heap.metatable here).made)

/-- So are their weak tables. -/
theorem weak_old (names : Names className L M) (heap : Heap L) {other : String}
    (here : Registered other mt L) (leads : field mt "userdata" L = .table w) :
    M.tables w = L.tables w := by
  obtain ⟨weak, -, apart⟩ := heap.weak_apart here here leads
  exact names.others w apart (Nat.ne_of_lt weak.made)

/-- The new metatable is empty. -/
theorem new_field (names : Names className L M) (name : String) :
    field L.nextTable name M = .nil := by
  rw [field, names.new]
  rfl

/-- **A new name** keeps the invariant. -/
theorem heap (names : Names className L M) (heap : Heap L) : Heap M := by
  have next : L.nextTable < M.nextTable := by
    rw [names.next]
    exact Nat.lt_succ_self _
  constructor
  · rw [names.registry]
    exact heap.made.trans next
  · rw [names.registry, names.self]
    exact heap.bare
  · intro other
    by_cases same : other = className
    · exact Or.inr ⟨_, names.registered_cases.mpr (Or.inl ⟨same, rfl⟩)⟩
    · rw [names.registry, names.self,
        Lua.Table.fields_set_of_ne fun equal => same (Value.string.inj equal)]
      exact (heap.names other).imp_right (Exists.imp fun _ here =>
        names.registered_cases.mpr (Or.inr ⟨same, here⟩))
  · intro other mt here
    rcases names.registered_cases.mp here with ⟨rfl, rfl⟩ | ⟨-, before⟩
    · refine ⟨next, ?_, ?_, Or.inl (names.new_field _), names.new_field _,
        Or.inl (names.new_field _)⟩
      · rw [names.registry]
        exact Ne.symm (Nat.ne_of_lt heap.made)
      · rw [names.new]
        rfl
    · obtain ⟨made, apart, bare, gc, trash, userdata⟩ := heap.metatable before
      have kept := names.old heap before
      refine ⟨made.trans next, names.registry ▸ apart, kept ▸ bare, ?_,
        (field_of_same kept).trans trash, ?_⟩
      · rw [field_of_same kept, names.closures]
        exact gc
      · rw [field_of_same kept]
        exact userdata.imp_right (Exists.imp fun _ found =>
          ⟨found.1, found.2.of_same next.le (names.weak_old heap before found.1)⟩)
  · intro one other mt first second
    rcases names.registered_cases.mp first with ⟨rfl, rfl⟩ | ⟨-, before⟩
    · rcases names.registered_cases.mp second with ⟨rfl, -⟩ | ⟨-, too⟩
      · rfl
      · exact absurd (heap.metatable too).made (Nat.lt_irrefl _)
    · rcases names.registered_cases.mp second with ⟨-, rfl⟩ | ⟨-, too⟩
      · exact absurd (heap.metatable before).made (Nat.lt_irrefl _)
      · exact heap.apart before too
  · intro one other mt mt' w first second leads also
    rcases names.registered_cases.mp first with ⟨rfl, rfl⟩ | ⟨-, before⟩
    · cases (names.new_field _).symm.trans leads
    · rcases names.registered_cases.mp second with ⟨rfl, rfl⟩ | ⟨-, too⟩
      · cases (names.new_field _).symm.trans also
      · rw [field_of_same (names.old heap before)] at leads
        rw [field_of_same (names.old heap too)] at also
        exact heap.own before too leads also

/-- Nothing else changes that the invariant is about. -/
theorem keeps (names : Names className L M) (heap : Heap L)
    (absent : (L.tables L.registry).fields (.string className) = .nil) : Keeps L M where
  registered {other mt} here := by
    refine names.registered_cases.mpr (Or.inr ⟨?_, here⟩)
    rintro rfl
    cases absent.symm.trans here
  fresh here := by
    rcases names.registered_cases.mp here with ⟨rfl, rfl⟩ | ⟨-, before⟩
    · exact Or.inr (entry_of_nil (names.new_field _))
    · exact Or.inl before
  entry {other mt} here obj := by
    have kept : field mt "userdata" M = field mt "userdata" L := field_of_same (names.old heap here)
    rcases (heap.metatable here).userdata with none_ | ⟨w, leads, -⟩
    · rw [entry_of_nil none_, entry_of_nil (kept.trans none_)]
    · rw [entry_of_table leads, entry_of_table (kept.trans leads), names.weak_old heap here leads]
  gc here some_ := by
    rw [field_of_same (names.old heap here)]
    exact some_
  udata := names.udata
  nextUdata := names.nextUdata
  tmudata := names.tmudata

/-- A table that nothing used is used by nothing. -/
theorem unused (names : Names className L M) (heap : Heap L) {h : Nat} (unused : Unused h L)
    (made : h < L.nextTable) : Unused h M where
  registry := names.registry ▸ unused.registry
  metatable here := by
    rcases names.registered_cases.mp here with ⟨-, rfl⟩ | ⟨-, before⟩
    · exact Ne.symm (Nat.ne_of_lt made)
    · exact unused.metatable before
  weak here := by
    rcases names.registered_cases.mp here with ⟨-, rfl⟩ | ⟨-, before⟩
    · rw [names.new_field]
      exact Value.noConfusion
    · rw [field_of_same (names.old heap before)]
      exact unused.weak before

end Names

/-- **`luaL_newmetatable`** gives a name its metatable, which is empty if the name is new. -/
theorem Heap.newmetatable (heap : Heap L) (className : String) {h : Nat} (unused : Unused h L)
    (made : h < L.nextTable) :
    ∃ M mt, L.newmetatable className = .ok M ∧ M.stack = .table mt :: L.stack ∧ Heap M ∧
      Keeps L M ∧ Registered className mt M ∧ M.closures = L.closures ∧ Unused h M ∧
        M.tables h = L.tables h ∧ h < M.nextTable := by
  rcases heap.names className with absent | ⟨mt, here⟩
  · have names : Names className L { L with
        tables := Function.update (Function.update L.tables L.nextTable .empty) L.registry
          ((L.tables L.registry).set (.string className) (.table L.nextTable))
        nextTable := L.nextTable + 1
        stack := .table L.nextTable :: L.stack } := by
      refine ⟨rfl, rfl, rfl, Function.update_self _ _ _, ?_, fun h apart other => ?_, rfl, rfl, rfl⟩
      · change Function.update (Function.update L.tables L.nextTable _) _ _ L.nextTable = _
        rw [Function.update_of_ne (Ne.symm (Nat.ne_of_lt heap.made)), Function.update_self]
      · change Function.update (Function.update L.tables L.nextTable _) _ _ h = _
        rw [Function.update_of_ne apart, Function.update_of_ne other]
    exact ⟨_, _, State.newmetatable_new heap.bare heap.made absent, rfl, names.heap heap,
      names.keeps heap absent, names.registered_cases.mpr (Or.inl ⟨rfl, rfl⟩), rfl,
      names.unused heap unused made, names.others h unused.registry (Nat.ne_of_lt made),
      made.trans (Nat.lt_succ_self _)⟩
  · obtain ⟨amends, keeps⟩ := @Heap.grow L (L.push (.table mt)) heap rfl (Nat.le_refl _)
      (List.prefix_refl _) (fun _ _ => rfl) rfl rfl rfl
    exact ⟨_, mt, State.newmetatable_old heap.bare here Value.noConfusion, rfl,
      heap.amend amends, keeps, here, rfl, amends.unused unused, rfl, made⟩

/-! ## Registration -/

/-- The functions that scripts can call are of the class of their name, whose metatable has
a finalizer. -/
def Callable (L : State Closure) : Prop :=
  ∀ code ∈ L.closures, ∀ T className, code.subject = some (T, className) →
    T = .of className ∧ ∃ mt, Registered className mt L ∧ field mt "__gc" L ≠ .nil

/-- Closures can be called as before if there are no new ones. -/
theorem Callable.keeps (callable : Callable L) (keeps : Keeps L M)
    (closures : M.closures = L.closures) : Callable M := by
  intro code member T className subject
  rw [closures] at member
  obtain ⟨same, mt, here, some_⟩ := callable code member T className subject
  exact ⟨same, mt, keeps.registered here, keeps.gc here some_⟩

theorem Callable.amends (callable : Callable L) (amends : Amends L M)
    (closures : M.closures = L.closures) : Callable M := by
  intro code member T className subject
  rw [closures] at member
  obtain ⟨same, mt, here, some_⟩ := callable code member T className subject
  exact ⟨same, mt, amends.registered_iff.mpr here, amends.gc_some here some_⟩

/-- Other fields of a metatable are not filled in. -/
theorem filled_field {c : Nat} {table : Lua.Table} {name : String}
    (metatable : name ≠ "__metatable") (index : name ≠ "__index")
    (tostring : name ≠ "__tostring") (gc : name ≠ "__gc") :
    (filled m c table).fields (.string name) = table.fields (.string name) := by
  have apart {other : String} (different : name ≠ other) : Value.string name ≠ .string other :=
    fun same => different (Value.string.inj same)
  unfold filled
  rw [Lua.Table.fields_set_of_ne (apart gc), Lua.Table.fields_set_of_ne (apart tostring),
    Lua.Table.fields_set_of_ne (apart index), Lua.Table.fields_set_of_ne (apart metatable)]

/-- What filling the metatable of a name changes. -/
structure Fills (className : String) (m mt : Nat) (L M : State Closure) : Prop where
  registry : M.registry = L.registry
  next : L.nextTable ≤ M.nextTable
  closures : M.closures = L.closures ++ ([.tostring_T (.of className) className,
    .gc_T (.of className), .new_T (.of className) className] ++
      (ScriptClass.of className).functions.map fun name => .thunk (.of className) name className)
  self : M.tables mt = filled m L.closures.length (L.tables mt)
  others : ∀ h < L.nextTable, h ≠ m → h ≠ mt → M.tables h = L.tables h
  udata : M.udata = L.udata
  nextUdata : M.nextUdata = L.nextUdata
  tmudata : M.tmudata = L.tmudata

namespace Fills

/-- The finalizer of the class is a new closure. -/
theorem gc (fills : Fills className m mt L M) :
    field mt "__gc" M = .function (L.closures.length + 1) := by
  rw [field, fills.self]
  exact Lua.Table.fields_set_self _ _ _

/-- It is that of the class of the name. -/
theorem finalizer (fills : Fills className m mt L M) :
    M.closures[L.closures.length + 1]? = some (.gc_T (.of className)) := by
  have second : L.closures.length + 1 - L.closures.length = 1 := by omega
  rw [fills.closures, List.getElem?_append_right (Nat.le_succ _), second]
  rfl

/-- The other metatables are as before. -/
theorem kept (fills : Fills className m mt L M) (heap : Heap L) (unused : Unused m L)
    {other : String} {mt' : Nat} (also : Registered other mt' L) (apart : mt' ≠ mt) :
    M.tables mt' = L.tables mt' :=
  fills.others mt' (heap.metatable also).made (unused.metatable also) apart

/-- The tables with weak values are as before. -/
theorem weak (fills : Fills className m mt L M) (heap : Heap L) (here : Registered className mt L)
    (unused : Unused m L) {other : String} {mt' w : Nat} (also : Registered other mt' L)
    (leads : field mt' "userdata" L = .table w) : M.tables w = L.tables w := by
  obtain ⟨weak, apart, -⟩ := heap.weak_apart also here leads
  refine fills.others w weak.made ?_ apart
  rintro rfl
  exact unused.weak also leads

/-- Other fields of the metatables are as they were. -/
theorem field_eq (fills : Fills className m mt L M) (heap : Heap L) (unused : Unused m L)
    {name : String} (metatable : name ≠ "__metatable") (index : name ≠ "__index")
    (tostring : name ≠ "__tostring") (gc : name ≠ "__gc") {other : String} {mt' : Nat}
    (also : Registered other mt' L) : field mt' name M = field mt' name L := by
  by_cases equal : mt' = mt
  · subst equal
    rw [field, fills.self]
    exact filled_field metatable index tostring gc
  · exact field_of_same (fills.kept heap unused also equal)

/-- Filling in the metatable of a class only amends the state. -/
theorem amends (fills : Fills className m mt L M) (heap : Heap L)
    (here : Registered className mt L) (unused : Unused m L) : Amends L M := by
  refine ⟨fills.registry, fills.next, ?_, ?_, ?_, ?_, ?_, ?_, ?_⟩
  · rw [fills.closures]
    exact List.prefix_append _ _
  · exact fills.others _ heap.made (Ne.symm unused.registry) (Ne.symm (heap.metatable here).apart)
  · intro other mt' w also leads
    exact (heap.weak_apart also here leads).1.of_same fills.next
      (fills.weak heap here unused also leads)
  · intro other mt' also
    by_cases equal : mt' = mt
    · subst equal
      rw [fills.self]
      exact (heap.metatable also).bare
    · rw [fills.kept heap unused also equal]
      exact (heap.metatable also).bare
  · exact fills.field_eq heap unused (by decide) (by decide) (by decide) (by decide)
  · exact fills.field_eq heap unused (by decide) (by decide) (by decide) (by decide)
  · intro other mt' also
    by_cases equal : mt' = mt
    · subst equal
      cases heap.apart here also
      exact Or.inr ⟨_, fills.gc, fills.finalizer⟩
    · exact Or.inl (field_of_same (fills.kept heap unused also equal))

/-- The new functions are of the class of the name. -/
theorem callable (fills : Fills className m mt L M) (keeps : Keeps L M)
    (here : Registered className mt L) (callable : Callable L) : Callable M := by
  intro code member T name subject
  rw [fills.closures, List.mem_append] at member
  rcases member with old | new
  · obtain ⟨same, mt', also, some_⟩ := callable code old T name subject
    exact ⟨same, mt', keeps.registered also, keeps.gc also some_⟩
  · have own : T = .of className ∧ name = className := by
      rcases List.mem_append.mp new with first | method
      · simp only [List.mem_cons, List.not_mem_nil, or_false] at first
        rcases first with rfl | rfl | rfl
        · cases subject
        · cases subject
        · cases subject
          exact ⟨rfl, rfl⟩
      · obtain ⟨method, -, rfl⟩ := List.mem_map.mp method
        cases subject
        exact ⟨rfl, rfl⟩
    obtain ⟨rfl, rfl⟩ := own
    refine ⟨rfl, mt, keeps.registered here, ?_⟩
    rw [fills.gc]
    exact Value.noConfusion

end Fills

/-- **A metatable is filled.** -/
theorem Heap.fill (heap : Heap L) (here : Registered className mt L) (unused : Unused m L)
    (made : m < L.nextTable) (bare : (L.tables m).metatable = none) {rest : List Value}
    (stack : L.stack = .table mt :: .table m :: rest) (callable : Callable L) :
    ∃ M, fill (.of className) className (rest.length + 1 : Nat) (rest.length + 2 : Nat) L = .ok M ∧
      Heap M ∧ Keeps L M ∧ Callable M := by
  obtain ⟨madeMt, -, bareMt, -, -, -⟩ := heap.metatable here
  have apart := Ne.symm (unused.metatable here)
  obtain ⟨tables, filled_, others, self⟩ :=
    @fill_eq L m mt rest (.of className) className stack apart bare bareMt made madeMt
  have fills : Fills className m mt L { L with
      stack := rest
      tables
      nextTable := L.nextTable + 1
      closures := L.closures ++ [.tostring_T (.of className) className, .gc_T (.of className),
          .new_T (.of className) className] ++
        (ScriptClass.of className).functions.map fun name =>
          .thunk (.of className) name className } :=
    ⟨rfl, Nat.le_succ _, List.append_assoc _ _ _, self, others, rfl, rfl, rfl⟩
  have amends := fills.amends heap here unused
  have keeps := amends.keeps heap (fills.weak heap here unused) rfl rfl rfl
  exact ⟨_, filled_, heap.amend amends, keeps, fills.callable keeps here callable⟩

/-- What `Register` and `RegisteSocketClassL` do before the methods are published. -/
theorem Heap.prepare (heap : Heap L) (className : String) (callable : Callable L) :
    ∃ M mt, L.newtable.newmetatable className = .ok M ∧
      M.stack = .table mt :: .table L.nextTable :: L.stack ∧ Heap M ∧ Keeps L M ∧
        Registered className mt M ∧ Callable M ∧ Unused L.nextTable M ∧
          (M.tables L.nextTable).metatable = none ∧ L.nextTable < M.nextTable := by
  obtain ⟨amends, kept⟩ := @Heap.grow L L.newtable heap rfl (Nat.le_succ _) (List.prefix_refl _)
    (fun h made => Function.update_of_ne (Nat.ne_of_lt made) _ _) rfl rfl rfl
  obtain ⟨M, mt, named, stack, heap', keeps, here, closures, unused, same, made⟩ :=
    (heap.amend amends).newmetatable className
      (amends.unused (heap.unused_of_le (Nat.le_refl _))) (Nat.lt_succ_self _)
  have bare : (M.tables L.nextTable).metatable = none := by
    rw [same]
    change (Function.update L.tables L.nextTable Lua.Table.empty L.nextTable).metatable = none
    rw [Function.update_self]
    rfl
  exact ⟨M, mt, named, stack, heap', kept.trans keeps, here,
    (callable.keeps kept rfl).keeps keeps closures, unused, bare, made⟩

/-- **Registration** keeps the tables in order, whether or not the name is new. -/
theorem Heap.registeSocketClassL (heap : Heap L) (className : String) (published : Bool)
    (callable : Callable L) :
    ∃ M, RegisteSocketClassL (.of className) className published L = .ok M ∧ Heap M ∧ Keeps L M ∧
      Callable M := by
  obtain ⟨M, mt, named, stack, heap', keeps, here, callable', unused, bare, made⟩ :=
    heap.prepare className callable
  unfold RegisteSocketClassL
  simp only [bind, Except.bind]
  rw [named]
  cases published with
  | false => exact ⟨M, rfl, heap', keeps, callable'⟩
  | true =>
      obtain ⟨N, filled, heap'', keeps', callable''⟩ :=
        heap'.fill here unused made bare stack callable'
      refine ⟨N, ?_, heap'', keeps.trans keeps', callable''⟩
      have top : M.gettop = L.stack.length + 2 := by
        rw [State.gettop, stack]
        rfl
      simp only [↓reduceIte, top]
      exact filled

/-- **The class of messages** is registered under its own name. -/
theorem Heap.register (heap : Heap L) (T : ScriptClass) (own : .of T.className = T)
    (callable : Callable L) :
    ∃ M, Register T L = .ok M ∧ Heap M ∧ Keeps L M ∧ Callable M := by
  obtain ⟨M, mt, named, stack, heap', keeps, here, callable', unused, bare, made⟩ :=
    heap.prepare T.className callable
  obtain ⟨N, filled, heap'', keeps', callable''⟩ :=
    heap'.fill here unused made bare stack callable'
  rw [own] at filled
  refine ⟨N, ?_, heap'', keeps.trans keeps', callable''⟩
  have top : M.gettop = L.stack.length + 2 := by
    rw [State.gettop, stack]
    rfl
  unfold Register
  simp only [bind, Except.bind]
  rw [named]
  simp only [top]
  exact filled

end LuaPlus

end EngSocket
