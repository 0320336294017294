import EngSocket.Binding.LuaPlus
import EngSocket.Lua.Rules

/-!
# What is pushed

Each function that `push` is made of is run on a stack of any contents. An object that
has a userdata is pushed as that one, and nothing else changes; for another object a
userdata is made and noted under `userdata` in the metatable.
-/

namespace EngSocket

open Lua (Value Error State)

namespace LuaPlus

variable {L : State Closure} {mt w : Nat} {tindex : Int} {value : Value} {rest : List Value}

/-- A new table with weak entries. -/
def weak (h : Nat) (mode : String) : Lua.Table where
  fields := Function.update (fun _ => .nil) (.string "__mode") (.string mode)
  metatable := some h

/-- A weak table is its own metatable. -/
theorem weaktable_eq (mode : String) (L : State Closure) :
    weaktable mode L = .ok { L with
      tables := Function.update L.tables L.nextTable (weak L.nextTable mode)
      nextTable := L.nextTable + 1
      stack := .table L.nextTable :: L.stack } := by
  let made := L.newtable
  let own : State Closure :=
    { made.setTable L.nextTable { made.tables L.nextTable with metatable := some L.nextTable } with
      stack := made.stack }
  have first : made.pushvalue (-1) = .ok (made.push (.table L.nextTable)) :=
    State.pushvalue_of (State.index2adr_first rfl)
  have second : (made.push (.table L.nextTable)).setmetatable (-2) = .ok own := by
    rw [State.setmetatable, @State.index2adr_second _ _ (.table L.nextTable) _ L.stack rfl]
    rfl
  have fields : own.tables L.nextTable =
      { Lua.Table.empty with metatable := some L.nextTable } := by
    change Function.update made.tables L.nextTable _ L.nextTable = _
    rw [Function.update_self]
    change { Function.update L.tables L.nextTable Lua.Table.empty L.nextTable with
      metatable := some L.nextTable } = _
    rw [Function.update_self]
  have plain : ((own.push (.string "__mode")).push (.string mode)).Plain L.nextTable := by
    constructor <;>
      (change own.metafield (own.tables L.nextTable).metatable _ = _
       rw [fields]
       change (own.tables L.nextTable).fields _ = _
       rw [fields]
       rfl)
  have third := @State.settable_of Closure _ L.nextTable (.string mode) (.string "__mode") _ (-3)
    (State.index2adr_third rfl) plain rfl
  unfold weaktable
  simp only [bind, Except.bind]
  rw [first]
  simp only
  rw [second]
  simp only
  rw [third]
  refine congrArg Except.ok (State.ext rfl ?_ rfl rfl rfl rfl rfl rfl)
  change Function.update own.tables L.nextTable _ = _
  change Function.update (Function.update (Function.update L.tables L.nextTable _) _ _) _ _ = _
  rw [Function.update_idem, Function.update_idem]
  refine congrArg (Function.update L.tables L.nextTable) ?_
  change (own.tables L.nextTable).set _ _ = _
  rw [fields]
  rfl

/-- A table that is there is pushed. -/
theorem subtable_found {name mode : String} (holds : L.Holds tindex (.table mt))
    (plain : L.Plain mt) (present : (L.tables mt).fields (.string name) = value)
    (some_ : value ≠ .nil) : subtable tindex name mode L = .ok (L.push value) := by
  have here : (L.push (.string name)).Holds tindex (.table mt) :=
    holds.grow (@rfl _ ([Value.string name] ++ L.stack))
  have got := @State.gettable_of Closure (L.push (.string name)) mt (.string name) L.stack tindex
    here.index2adr (plain.congr rfl) rfl
  change _ = Except.ok (L.push ((L.tables mt).fields (.string name))) at got
  rw [present] at got
  have kept : (L.push value).isnilTop ≠ true :=
    fun none_ => some_ ((State.isnilTop_iff rfl).mp none_)
  unfold subtable
  simp only [bind, Except.bind]
  rw [got]
  exact if_neg kept

/-- A table that is missing is made and stored under its name. -/
theorem subtable_new {name mode : String} (holds : L.Holds tindex (.table mt))
    (bare : (L.tables mt).metatable = none) (old : mt < L.nextTable)
    (absent : (L.tables mt).fields (.string name) = .nil) :
    subtable tindex name mode L = .ok { L with
      tables := Function.update (Function.update L.tables L.nextTable (weak L.nextTable mode)) mt
        ((L.tables mt).set (.string name) (.table L.nextTable))
      nextTable := L.nextTable + 1
      stack := .table L.nextTable :: L.stack } := by
  have here : (L.push (.string name)).Holds tindex (.table mt) :=
    holds.grow (@rfl _ ([Value.string name] ++ L.stack))
  have got := @State.gettable_of Closure (L.push (.string name)) mt (.string name) L.stack tindex
    here.index2adr (State.plain_of_none bare) rfl
  change _ = Except.ok (L.push ((L.tables mt).fields (.string name))) at got
  rw [absent] at got
  have popped : (L.push .nil).pop 1 = .ok L := State.pop_of (@rfl _ ([Value.nil] ++ L.stack)) rfl
  let made : State Closure := { L with
    tables := Function.update L.tables L.nextTable (weak L.nextTable mode)
    nextTable := L.nextTable + 1
    stack := .table L.nextTable :: L.stack }
  have same : made.tables mt = L.tables mt := Function.update_of_ne (Nat.ne_of_lt old) _ _
  have copied : (made.push (.string name)).pushvalue (-2) =
      .ok ((made.push (.string name)).push (.table L.nextTable)) :=
    State.pushvalue_of (State.index2adr_second rfl)
  have there : ((made.push (.string name)).push (.table L.nextTable)).Holds tindex (.table mt) :=
    holds.grow (@rfl _ ([Value.table L.nextTable, .string name, .table L.nextTable] ++ L.stack))
  have stored := @State.settable_of Closure _ mt _ _ _ tindex there.index2adr
    (State.plain_of_none (same ▸ bare)) rfl
  unfold subtable
  simp only [bind, Except.bind]
  rw [got]
  simp only
  rw [if_pos ((State.isnilTop_iff rfl).mpr rfl), popped]
  simp only
  rw [weaktable_eq]
  simp only
  rw [copied]
  simp only
  rw [stored]
  refine congrArg Except.ok (State.ext rfl ?_ rfl rfl rfl rfl rfl rfl)
  change Function.update made.tables mt ((made.tables mt).set _ _) = _
  rw [same]

/-- A userdata that the weak table has for the pointer is pushed. -/
theorem pushuserdata_found {key : Nat} (stack : L.stack = .table w :: rest) (plain : L.Plain w)
    (present : (L.tables w).fields (.lightuserdata key) = value) (some_ : value ≠ .nil) :
    pushuserdata key L = .ok (none, L.push value) := by
  have got := @State.gettable_of Closure (L.push (.lightuserdata key)) w _ L.stack (-2)
    (@State.index2adr_second _ _ (.table w) _ rest (congrArg _ stack)) (plain.congr rfl) rfl
  change _ = Except.ok (L.push ((L.tables w).fields (.lightuserdata key))) at got
  rw [present] at got
  have kept : (L.push value).isnilTop ≠ true :=
    fun none_ => some_ ((State.isnilTop_iff rfl).mp none_)
  unfold pushuserdata
  simp only [bind, Except.bind]
  rw [got]
  exact if_neg kept

/-- A userdata is made for a pointer that the weak table has nothing for. -/
theorem pushuserdata_new {key : Nat} (stack : L.stack = .table w :: rest) (plain : L.Plain w)
    (absent : (L.tables w).fields (.lightuserdata key) = .nil) :
    pushuserdata key L = .ok (some L.nextUdata, { L with
      tables := Function.update L.tables w
        ((L.tables w).set (.lightuserdata key) (.userdata L.nextUdata))
      udata := Function.update L.udata L.nextUdata
        { pointer := 0, metatable := none, finalized := false }
      nextUdata := L.nextUdata + 1
      stack := .userdata L.nextUdata :: L.stack }) := by
  have got := @State.gettable_of Closure (L.push (.lightuserdata key)) w _ L.stack (-2)
    (@State.index2adr_second _ _ (.table w) _ rest (congrArg _ stack)) (plain.congr rfl) rfl
  change _ = Except.ok (L.push ((L.tables w).fields (.lightuserdata key))) at got
  rw [absent] at got
  have popped : (L.push .nil).pop 1 = .ok L := State.pop_of (@rfl _ ([Value.nil] ++ L.stack)) rfl
  have copied : (L.newuserdata.2.push (.lightuserdata key)).pushvalue (-2) =
      .ok ((L.newuserdata.2.push (.lightuserdata key)).push (.userdata L.nextUdata)) :=
    State.pushvalue_of (State.index2adr_second rfl)
  have there :
      ((L.newuserdata.2.push (.lightuserdata key)).push (.userdata L.nextUdata)).index2adr (-4) =
        .ok (.table w) :=
    @State.index2adr_fourth _ _ (.table w) _ rest _ _ (congrArg (fun below =>
      [Value.userdata L.nextUdata, .lightuserdata key, .userdata L.nextUdata] ++ below) stack)
  have stored := @State.settable_of Closure _ w (.userdata L.nextUdata) (.lightuserdata key) _ (-4)
    there (plain.congr rfl) rfl
  unfold pushuserdata
  simp only [bind, Except.bind]
  rw [got]
  simp only
  rw [if_pos ((State.isnilTop_iff rfl).mpr rfl), popped]
  simp only
  rw [copied]
  simp only
  rw [stored]
  rfl

theorem attach_eq {ud obj h : Nat} (stack : L.stack = .userdata ud :: rest)
    (holds : L.Holds tindex (.table h)) :
    attach ud obj true tindex L = .ok (L.setUdata ud
      { pointer := obj, metatable := some h, finalized := (L.udata ud).finalized }) := by
  let told := L.setUdata ud { L.udata ud with pointer := obj }
  have copied : told.pushvalue tindex = .ok (told.push (.table h)) :=
    State.pushvalue_of (State.Holds.index2adr (holds.grow (@rfl _ ([] ++ L.stack))))
  have set : (told.push (.table h)).setmetatable (-2) =
      .ok { told.setUdata ud { told.udata ud with metatable := some h } with
        stack := L.stack } := by
    rw [State.setmetatable, @State.index2adr_second _ _ (.userdata ud) _ rest (congrArg _ stack)]
    rfl
  unfold attach
  simp only [bind, Except.bind]
  rw [copied]
  simp only
  rw [set]
  refine congrArg Except.ok (State.ext rfl rfl rfl ?_ rfl rfl rfl rfl)
  have same : told.udata ud = { L.udata ud with pointer := obj } := Function.update_self _ _ _
  have known : (told.udata ud).pointer = obj := by rw [same]
  have kept : (told.udata ud).finalized = (L.udata ud).finalized := by rw [same]
  change Function.update (Function.update L.udata ud _) ud
    (Lua.Udata.mk (told.udata ud).pointer (some h) (told.udata ud).finalized) = _
  rw [Function.update_idem, known, kept]
  rfl

/-- **An object without a userdata** gets a new one. -/
theorem push_new {className : String} {obj : Nat} {M : State Closure} (some_ : obj ≠ 0)
    (bare : (L.tables L.registry).metatable = none)
    (registered : (L.tables L.registry).fields (.string className) = .table mt)
    (sub : subtable (L.stack.length + 1 : Nat) "userdata" "v" (L.push (.table mt)) = .ok M)
    (stack : M.stack = .table w :: .table mt :: L.stack) (plain : M.Plain w)
    (absent : (M.tables w).fields (.lightuserdata obj) = .nil) :
    push obj true className L = .ok { M with
      tables := Function.update M.tables w
        ((M.tables w).set (.lightuserdata obj) (.userdata M.nextUdata))
      udata := Function.update M.udata M.nextUdata
        { pointer := obj, metatable := some mt, finalized := false }
      nextUdata := M.nextUdata + 1
      stack := .userdata M.nextUdata :: L.stack } := by
  have got := State.getfield_of (@State.index2adr_registry _ L) (State.plain_of_none bare) className
  rw [registered] at got
  have there : (L.push (.table mt)).isnilTop ≠ true :=
    fun none_ => Value.noConfusion ((State.isnilTop_iff rfl).mp none_)
  have top : (L.push (.table mt)).gettop = L.stack.length + 1 := rfl
  have made := pushuserdata_new stack plain absent
  have attached := @attach_eq { M with
      tables := Function.update M.tables w
        ((M.tables w).set (.lightuserdata obj) (.userdata M.nextUdata))
      udata := Function.update M.udata M.nextUdata
        { pointer := 0, metatable := none, finalized := false }
      nextUdata := M.nextUdata + 1
      stack := .userdata M.nextUdata :: M.stack } (L.stack.length + 1 : Nat) M.stack M.nextUdata
    obj mt rfl ⟨[.userdata M.nextUdata, .table w], L.stack, congrArg _ stack, rfl⟩
  unfold push
  rw [if_neg some_, got]
  simp only [bind, Except.bind]
  rw [if_neg there, top, sub]
  simp only
  rw [made]
  simp only
  rw [attached]
  simp only
  rw [@State.replace_of Closure _ (.table mt) (.userdata M.nextUdata) [.table w] L.stack
    (congrArg _ stack)]
  refine congrArg Except.ok ((@State.settop_of Closure _ [.table w]
    (.userdata M.nextUdata :: L.stack) rfl).trans ?_)
  refine State.ext rfl rfl rfl ?_ rfl rfl rfl rfl
  change Function.update (Function.update M.udata M.nextUdata _) M.nextUdata _ = _
  rw [Function.update_idem, Function.update_self]

/-- **An object with a userdata** is pushed as that one, and nothing changes. -/
theorem push_found {className : String} {obj : Nat} {gc : Bool} {M : State Closure}
    (some_ : obj ≠ 0) (bare : (L.tables L.registry).metatable = none)
    (registered : (L.tables L.registry).fields (.string className) = .table mt)
    (sub : subtable (L.stack.length + 1 : Nat) "userdata" "v" (L.push (.table mt)) = .ok M)
    (stack : M.stack = .table w :: .table mt :: L.stack) (plain : M.Plain w)
    (present : (M.tables w).fields (.lightuserdata obj) = value) (known : value ≠ .nil) :
    push obj gc className L = .ok { M with stack := value :: L.stack } := by
  have got := State.getfield_of (@State.index2adr_registry _ L) (State.plain_of_none bare) className
  rw [registered] at got
  have there : (L.push (.table mt)).isnilTop ≠ true :=
    fun none_ => Value.noConfusion ((State.isnilTop_iff rfl).mp none_)
  have top : (L.push (.table mt)).gettop = L.stack.length + 1 := rfl
  unfold push
  rw [if_neg some_, got]
  simp only [bind, Except.bind]
  rw [if_neg there, top, sub]
  simp only
  rw [pushuserdata_found stack plain present known]
  simp only [pure, Except.pure]
  rw [@State.replace_of Closure _ (.table mt) value [.table w] L.stack (congrArg _ stack)]
  exact congrArg Except.ok (@State.settop_of Closure _ [.table w] (value :: L.stack) rfl)

end LuaPlus

end EngSocket
