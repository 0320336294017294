import EngSocket.Binding.Push

/-!
# What is registered

`Register` and `RegisteSocketClassL` fill the metatable of a name and the table of the
methods, both of which are on the stack, and touch no other table that was there before.
-/

namespace EngSocket

open Lua (Value Error State)

namespace LuaPlus

variable {L : State Closure} {m mt : Nat} {methods metatable : Int} {value : Value}
  {rest : List Value} {T : ScriptClass} {className : String}

theorem set_eq {h : Nat} {idx : Int} {key : String} (stack : L.stack = value :: rest)
    (here : ({ L with stack := value :: .string key :: rest } : State Closure).index2adr idx =
      .ok (.table h)) (plain : L.Plain h) :
    set idx key L =
      .ok { L.setTable h ((L.tables h).set (.string key) value) with stack := rest } := by
  have place : (L.push (.string key)).offset (-2) = some 1 :=
    @State.offset_below Closure (L.push (.string key)) value rest [.string key] (congrArg _ stack)
  have moved : (L.push (.string key)).insert (-2) =
      .ok { L with stack := value :: .string key :: rest } := by
    unfold State.insert
    rw [place, State.push_stack, stack]
    rfl
  have stored := @State.settable_of Closure { L with stack := value :: .string key :: rest } h value
    (.string key) rest idx here (plain.congr rfl) rfl
  unfold set
  simp only [bind, Except.bind]
  rw [moved]
  simp only
  rw [stored]
  rfl

/-- The top value becomes a field of a table further down. -/
theorem set_absolute {K : State Closure} {h : Nat} {idx : Int} {key : String}
    (stack : K.stack = value :: L.stack) (holds : L.Holds idx (.table h)) (plain : K.Plain h) :
    set idx key K =
      .ok { K.setTable h ((K.tables h).set (.string key) value) with stack := L.stack } :=
  set_eq stack
    (State.Holds.index2adr (holds.grow (@rfl _ ([value, Value.string key] ++ L.stack)))) plain

/-- A field of a table. -/
def put (h : Nat) (key : String) (value : Value) (L : State Closure) : State Closure :=
  L.setTable h ((L.tables h).set (.string key) value)

/-- Storing a field gives no table a metatable. -/
theorem put_bare {h : Nat} (bare : (L.tables h).metatable = none) (key : String) (value : Value) :
    ((put h key value L).tables h).metatable = none := by
  change (Function.update L.tables h _ h).metatable = none
  rw [Function.update_self]
  exact bare

/-- `set` stores the top of the stack in a table without a metatable. -/
theorem set_put {h : Nat} {idx : Int} (holds : L.Holds idx (.table h))
    (bare : (L.tables h).metatable = none) (key : String) (value : Value) :
    set idx key (L.push value) = .ok (put h key value L) :=
  set_absolute rfl holds (State.plain_of_none bare)

/-- What becomes of a metatable. -/
def filled (m c : Nat) (table : Lua.Table) : Lua.Table :=
  (((table.set (.string "__metatable") (.table m)).set (.string "__index") (.table m)).set
    (.string "__tostring") (.function c)).set (.string "__gc") (.function (c + 1))

/-- The metatable of a class gets its index, its printer and its finalizer. -/
theorem setMetatable_eq (holds : L.Holds methods (.table m))
    (holdsMt : L.Holds metatable (.table mt)) (bare : (L.tables mt).metatable = none) :
    setMetatable T className methods metatable L = .ok { L with
      tables := Function.update L.tables mt (filled m L.closures.length (L.tables mt))
      closures := L.closures ++ [.tostring_T T className, .gc_T T] } := by
  have same {K : State Closure} (stack : K.stack = L.stack) {idx : Int} {value : Value}
      (holds : L.Holds idx value) : K.Holds idx value := holds.of_stack stack
  let first := put mt "__metatable" (.table m) L
  let second := put mt "__index" (.table m) first
  let third : State Closure :=
    put mt "__tostring" (.function L.closures.length)
      { second with closures := L.closures ++ [.tostring_T T className] }
  have bareFirst : (first.tables mt).metatable = none := put_bare bare _ _
  have bareSecond : (second.tables mt).metatable = none := put_bare bareFirst _ _
  have bareThird : (third.tables mt).metatable = none := put_bare bareSecond _ _
  have step1 := State.pushvalue_of holds.index2adr
  have step2 : set metatable "__metatable" (L.push (.table m)) = .ok first :=
    set_put holdsMt bare _ _
  have step3 : first.pushvalue methods = .ok (first.push (.table m)) :=
    State.pushvalue_of (same (@rfl _ L.stack) holds).index2adr
  have step4 : set metatable "__index" (first.push (.table m)) = .ok second :=
    @set_put first mt metatable (same (@rfl _ L.stack) holdsMt) bareFirst _ _
  have step5 : set metatable "__tostring" (second.pushcclosure (.tostring_T T className)) =
      .ok third :=
    @set_put { second with closures := L.closures ++ [.tostring_T T className] } mt metatable
      (same (@rfl _ L.stack) holdsMt) bareSecond _ _
  have step6 := @set_put { third with closures := third.closures ++ [.gc_T T] } mt metatable
    (same (@rfl _ L.stack) holdsMt) bareThird "__gc" (.function third.closures.length)
  unfold setMetatable
  simp only [bind, Except.bind]
  rw [step1]
  simp only
  rw [step2]
  simp only
  rw [step3]
  simp only
  rw [step4]
  simp only
  rw [step5]
  refine step6.trans (congrArg Except.ok (State.ext rfl ?_ rfl rfl rfl ?_ rfl rfl))
  · simp only [put, filled, State.setTable, third, second, first, Function.update_self,
      Function.update_idem, List.length_append, List.length_singleton]
  · change L.closures ++ [_] ++ [_] = _
    rw [List.append_assoc]
    rfl

/-- The table of methods gets a metatable that makes objects when it is called. -/
theorem setNew_eq (holds : L.Holds methods (.table m)) (bare : (L.tables m).metatable = none)
    (old : m < L.nextTable) :
    setNew T className methods L = .ok { L with
      tables := Function.update (Function.update L.tables L.nextTable
          (Lua.Table.empty.set (.string "__call") (.function L.closures.length))) m
        { (L.tables m).set (.string "new") (.function L.closures.length) with
          metatable := some L.nextTable }
      nextTable := L.nextTable + 1
      closures := L.closures ++ [.new_T T className] } := by
  have apart : m ≠ L.nextTable := Nat.ne_of_lt old
  let made := L.newtable.pushcclosure (.new_T T className)
  let named := put m "new" (.function L.closures.length) made
  let called : State Closure :=
    { named.setTable L.nextTable
        ((named.tables L.nextTable).set (.string "__call") (.function L.closures.length)) with
      stack := .table L.nextTable :: L.stack }
  have bareMade : (made.tables m).metatable = none := by
    change (Function.update L.tables L.nextTable _ m).metatable = none
    rw [Function.update_of_ne apart]
    exact bare
  have fresh : named.tables L.nextTable = Lua.Table.empty := by
    change Function.update (Function.update L.tables L.nextTable _) m _ L.nextTable = _
    rw [Function.update_of_ne (Ne.symm apart), Function.update_self]
  have step1 : made.pushvalue (-1) = .ok (made.push (.function L.closures.length)) :=
    State.pushvalue_of (State.index2adr_first rfl)
  have step2 : set methods "new" (made.push (.function L.closures.length)) = .ok named :=
    @set_put made m methods
      (holds.grow (@rfl _ ([Value.function L.closures.length, .table L.nextTable] ++ L.stack)))
      bareMade _ _
  have step3 : set (-3) "__call" named = .ok called :=
    @set_eq named (.function L.closures.length) (.table L.nextTable :: L.stack) L.nextTable (-3)
      "__call" rfl (State.index2adr_third rfl)
      (State.plain_of_none (congrArg Lua.Table.metatable fresh))
  have there : called.index2adr methods = .ok (.table m) :=
    State.Holds.index2adr (holds.grow (@rfl _ ([Value.table L.nextTable] ++ L.stack)))
  unfold setNew
  simp only [bind, Except.bind]
  rw [step1]
  simp only
  rw [step2]
  simp only
  rw [step3]
  simp only
  rw [State.setmetatable, there]
  refine congrArg Except.ok (State.ext rfl ?_ rfl rfl rfl rfl rfl rfl)
  have kept : called.tables m =
      (L.tables m).set (.string "new") (.function L.closures.length) := by
    change Function.update (Function.update (Function.update L.tables L.nextTable _) m
      ((made.tables m).set _ _)) L.nextTable _ m = _
    rw [Function.update_of_ne apart, Function.update_self]
    change (Function.update L.tables L.nextTable _ m).set _ _ = _
    rw [Function.update_of_ne apart]
  change Function.update (Function.update (Function.update (Function.update L.tables L.nextTable _)
    m _) L.nextTable ((named.tables L.nextTable).set _ _)) m
      { called.tables m with metatable := some L.nextTable } = _
  rw [Function.update_comm apart, Function.update_idem, Function.update_idem, kept, fresh]

/-- Each method gets a closure of its own. -/
theorem setMethods_eq {names : List String} {x : Nat} (holds : L.Holds methods (.table m))
    (own : (L.tables m).metatable = some x) (apart : x ≠ m)
    (handlers : (L.tables x).fields (.string "__index") = .nil ∧
      (L.tables x).fields (.string "__newindex") = .nil) :
    ∃ table, setMethods T className methods names L = .ok { L with
      tables := Function.update L.tables m table
      closures := L.closures ++ names.map fun name => .thunk T name className } := by
  induction names generalizing L with
  | nil =>
      refine ⟨L.tables m, congrArg Except.ok (State.ext rfl ?_ rfl rfl rfl ?_ rfl rfl)⟩
      · exact (Function.update_eq_self m L.tables).symm
      · exact (List.append_nil L.closures).symm
  | cons name names ih =>
      let pushed := (L.push (.string name)).pushcclosure (.thunk T name className)
      have plain : pushed.Plain m := by
        constructor
        · change pushed.metafield (L.tables m).metatable _ = _
          rw [own]
          exact handlers.1
        · change pushed.metafield (L.tables m).metatable _ = _
          rw [own]
          exact handlers.2
      have there : pushed.index2adr methods = .ok (.table m) :=
        State.Holds.index2adr (holds.grow
          (@rfl _ ([Value.function L.closures.length, .string name] ++ L.stack)))
      have stored := State.settable_of there plain rfl
      let after : State Closure :=
        { pushed.setTable m
            ((pushed.tables m).set (.string name) (.function L.closures.length)) with
          stack := L.stack }
      have self : after.tables m = (L.tables m).set (.string name) (.function L.closures.length) :=
        Function.update_self _ _ _
      have other : after.tables x = L.tables x := Function.update_of_ne apart _ _
      obtain ⟨table, rest⟩ := @ih after (holds.of_stack rfl) (by rw [self]; exact own)
        (by rw [other]; exact handlers)
      refine ⟨table, ?_⟩
      unfold setMethods
      simp only [bind, Except.bind]
      rw [stored]
      refine rest.trans (congrArg Except.ok (State.ext rfl ?_ rfl rfl rfl ?_ rfl rfl))
      · exact Function.update_idem _ _ _
      · change (L.closures ++ [_]) ++ _ = _
        rw [List.append_assoc]
        rfl

/-- **What `fill` does**: of the tables that were there only the two it is for change, and
the metatable has new functions. -/
theorem fill_eq (stack : L.stack = .table mt :: .table m :: rest) (apart : m ≠ mt)
    (bare : (L.tables m).metatable = none) (bareMt : (L.tables mt).metatable = none)
    (old : m < L.nextTable) (oldMt : mt < L.nextTable) :
    ∃ tables, fill T className (rest.length + 1 : Nat) (rest.length + 2 : Nat) L = .ok { L with
        stack := rest
        tables
        nextTable := L.nextTable + 1
        closures := L.closures ++ [.tostring_T T className, .gc_T T, .new_T T className] ++
          T.functions.map fun name => .thunk T name className } ∧
      (∀ h < L.nextTable, h ≠ m → h ≠ mt → tables h = L.tables h) ∧
        tables mt = filled m L.closures.length (L.tables mt) := by
  have holds : L.Holds (rest.length + 1 : Nat) (.table m) := ⟨[.table mt], rest, stack, rfl⟩
  have holdsMt : L.Holds (rest.length + 2 : Nat) (.table mt) := ⟨[], .table m :: rest, stack, rfl⟩
  have step1 := @setMetatable_eq L m mt _ _ T className holds holdsMt bareMt
  let first : State Closure := { L with
    tables := Function.update L.tables mt (filled m L.closures.length (L.tables mt))
    closures := L.closures ++ [.tostring_T T className, .gc_T T] }
  have methods : first.tables m = L.tables m := Function.update_of_ne apart _ _
  have step2 := @setNew_eq first m _ T className (holds.of_stack rfl) (methods ▸ bare) old
  let second : State Closure := { first with
    tables := Function.update (Function.update first.tables L.nextTable
        (Lua.Table.empty.set (.string "__call") (.function first.closures.length))) m
      { (first.tables m).set (.string "new") (.function first.closures.length) with
        metatable := some L.nextTable }
    nextTable := L.nextTable + 1
    closures := first.closures ++ [.new_T T className] }
  have fresh : L.nextTable ≠ m := Ne.symm (Nat.ne_of_lt old)
  have handler : second.tables L.nextTable =
      Lua.Table.empty.set (.string "__call") (.function first.closures.length) := by
    change Function.update (Function.update first.tables L.nextTable _) m _ L.nextTable = _
    rw [Function.update_of_ne fresh, Function.update_self]
  have owned : (second.tables m).metatable = some L.nextTable := by
    change (Function.update (Function.update first.tables L.nextTable _) m _ m).metatable = _
    rw [Function.update_self]
  obtain ⟨table, step3⟩ := @setMethods_eq second m _ T className T.functions L.nextTable
    (holds.of_stack rfl) owned fresh
    (by rw [handler]; exact ⟨rfl, rfl⟩)
  refine ⟨Function.update second.tables m table, ?_, ?_, ?_⟩
  · unfold fill
    simp only [bind, Except.bind]
    rw [step1]
    simp only
    rw [step2]
    simp only
    rw [step3]
    simp only
    refine (@State.pop_of Closure { second with
      tables := Function.update second.tables m table
      closures := second.closures ++ T.functions.map fun name => .thunk T name className } rest 2
        [.table mt, .table m] stack rfl).trans ?_
    refine congrArg Except.ok (State.ext rfl rfl rfl rfl rfl ?_ rfl rfl)
    change (L.closures ++ _ ++ _) ++ _ = _
    rw [List.append_assoc L.closures]
    rfl
  · intro h below notMethods notMt
    rw [Function.update_of_ne notMethods]
    change Function.update (Function.update first.tables L.nextTable _) m _ h = _
    rw [Function.update_of_ne notMethods, Function.update_of_ne (Nat.ne_of_lt below)]
    exact Function.update_of_ne notMt _ _
  · rw [Function.update_of_ne (Ne.symm apart)]
    change Function.update (Function.update first.tables L.nextTable _) m _ mt = _
    rw [Function.update_of_ne (Ne.symm apart), Function.update_of_ne (Nat.ne_of_lt oldMt)]
    exact Function.update_self _ _ _

end LuaPlus

end EngSocket
