import EngSocket.Lua.State

/-!
# Rules for the API of Lua

An index is of the top, counted down, or of the bottom, counted up. The second kind
stays good while the stack grows (`Lua.State.Holds`). A table whose metatable, if it has
one, has no handlers is read and written as it is.
-/

namespace Lua

theorem Table.fields_set_self (key value : Value) (table : Table) :
    (table.set key value).fields key = value := Function.update_self _ _ _

/-- Storing under one key leaves the other keys alone. -/
theorem Table.fields_set_of_ne {key other : Value} (apart : other ≠ key) (value : Value)
    (table : Table) : (table.set key value).fields other = table.fields other :=
  Function.update_of_ne apart _ _

namespace State

variable {Code : Type} {L : State Code} {h : Nat} {value key top : Value} {rest : List Value}
  {idx : Int}

@[simp] theorem push_stack (value : Value) (L : State Code) :
    (L.push value).stack = value :: L.stack := rfl

/-! ## Values on the stack -/

/-- An index into the stack is read at its offset. -/
theorem index2adr_of_offset {place : Nat} (other : idx ≠ LUA_REGISTRYINDEX)
    (offset : L.offset idx = some place) : L.index2adr idx = .ok (L.stack.getD place .nil) := by
  rw [index2adr, if_neg other, offset]

theorem index2adr_registry : L.index2adr LUA_REGISTRYINDEX = .ok (.table L.registry) := rfl

/-- A negative index counts from the top of the stack. -/
theorem offset_below {above : List Value} (stack : L.stack = above ++ value :: rest) :
    L.offset (.negSucc above.length) = some above.length := by
  unfold offset
  rw [stack, List.length_append, List.length_cons]
  exact if_pos (by omega)

/-- What lies below so many values is at the negative index of their number. -/
theorem index2adr_below {above : List Value} (stack : L.stack = above ++ value :: rest)
    (near : above.length < 9999) : L.index2adr (.negSucc above.length) = .ok value := by
  have other : Int.negSucc above.length ≠ LUA_REGISTRYINDEX := by
    unfold LUA_REGISTRYINDEX
    omega
  rw [index2adr_of_offset other (offset_below stack), stack, List.getD_eq_getElem?_getD,
    List.getElem?_append_right (Nat.le_refl _), Nat.sub_self]
  rfl

theorem index2adr_first (stack : L.stack = value :: rest) : L.index2adr (-1) = .ok value :=
  @index2adr_below Code L value rest [] stack (by change 0 < 9999; decide)

theorem index2adr_second (stack : L.stack = top :: value :: rest) :
    L.index2adr (-2) = .ok value :=
  @index2adr_below Code L value rest [top] stack (by change 1 < 9999; decide)

theorem index2adr_third {second : Value} (stack : L.stack = top :: second :: value :: rest) :
    L.index2adr (-3) = .ok value :=
  @index2adr_below Code L value rest [top, second] stack (by change 2 < 9999; decide)

theorem index2adr_fourth {second third : Value}
    (stack : L.stack = top :: second :: third :: value :: rest) : L.index2adr (-4) = .ok value :=
  @index2adr_below Code L value rest [top, second, third] stack (by change 3 < 9999; decide)

/-- The first argument is there to be read even if it was not passed. -/
theorem index2adr_one (L : State Code) : ∃ value, L.index2adr 1 = .ok value := by
  unfold index2adr LUA_REGISTRYINDEX
  rw [if_neg (by decide)]
  cases L.offset 1 with
  | none => exact ⟨_, rfl⟩
  | some place => exact ⟨_, rfl⟩

/-- What a function finds as its first argument was given to it. -/
theorem mem_of_index2adr (here : L.index2adr 1 = .ok value) (some_ : value ≠ .nil) :
    value ∈ L.stack := by
  unfold index2adr LUA_REGISTRYINDEX at here
  rw [if_neg (by decide)] at here
  cases place : L.offset 1 with
  | none =>
      rw [place] at here
      cases here
      exact absurd rfl some_
  | some n =>
      rw [place] at here
      have same : (L.stack[n]?).getD .nil = value := Except.ok.inj here
      cases found : L.stack[n]? with
      | none =>
          rw [found] at same
          exact absurd same.symm some_
      | some other =>
          rw [found] at same
          cases (same : other = value)
          exact List.mem_of_getElem? found

/-- The value at an index that is counted from the bottom. -/
def Holds (idx : Int) (value : Value) (L : State Code) : Prop :=
  ∃ above below, L.stack = above ++ value :: below ∧ idx = (below.length + 1 : Nat)

/-- Pushing does not change what a positive index holds. -/
theorem Holds.grow {after : State Code} {more : List Value} (holds : L.Holds idx value)
    (stack : after.stack = more ++ L.stack) : after.Holds idx value := by
  obtain ⟨above, below, same, index⟩ := holds
  exact ⟨more ++ above, below, by rw [stack, same, List.append_assoc], index⟩

theorem Holds.of_stack {after : State Code} (holds : L.Holds idx value)
    (stack : after.stack = L.stack) : after.Holds idx value := by
  obtain ⟨above, below, same, index⟩ := holds
  exact ⟨above, below, stack.trans same, index⟩

/-- A positive index counts from the bottom of the stack. -/
theorem Holds.offset {above below : List Value} (stack : L.stack = above ++ value :: below) :
    L.offset (below.length + 1 : Nat) = some above.length := by
  change (if below.length < L.stack.length then _ else _) = _
  rw [stack, List.length_append, List.length_cons, if_pos (by omega)]
  exact congrArg some (by omega)

/-- Reading at an index that holds a value gives the value. -/
theorem Holds.index2adr (holds : L.Holds idx value) : L.index2adr idx = .ok value := by
  obtain ⟨above, below, stack, rfl⟩ := holds
  have other : ((below.length + 1 : Nat) : Int) ≠ LUA_REGISTRYINDEX := by
    unfold LUA_REGISTRYINDEX
    omega
  rw [index2adr_of_offset other (Holds.offset stack), stack, List.getD_eq_getElem?_getD,
    List.getElem?_append_right (Nat.le_refl _), Nat.sub_self]
  rfl

/-- `lua_pushvalue` copies to the top. -/
theorem pushvalue_of (here : L.index2adr idx = .ok value) :
    L.pushvalue idx = .ok (L.push value) := by
  rw [pushvalue, here]
  rfl

/-- `lua_pop` leaves what was below. -/
theorem pop_of {n : Nat} {above : List Value} (stack : L.stack = above ++ rest)
    (length : above.length = n) : L.pop n = .ok { L with stack := rest } := by
  have enough : n ≤ L.stack.length := by
    rw [stack, List.length_append, length]
    omega
  rw [pop, if_pos enough, stack, ← length, List.drop_left]

/-- `lua_replace` puts the top in the place of a value further down. -/
theorem replace_of {above below : List Value} (stack : L.stack = top :: above ++ value :: below) :
    L.replace (below.length + 1 : Nat) = .ok { L with stack := above ++ top :: below } := by
  have place : L.offset (below.length + 1 : Nat) = some (top :: above).length :=
    Holds.offset stack
  unfold replace
  rw [place, stack]
  simp only [List.cons_append, List.length_cons, List.set_cons_succ, List.tail_cons]
  rw [List.set_append_right _ _ (Nat.le_refl _), Nat.sub_self, List.set_cons_zero]

/-- `lua_settop` at an index within the stack cuts off what is above. -/
theorem settop_of {above below : List Value} (stack : L.stack = above ++ below) :
    L.settop below.length = { L with stack := below } := by
  have none_ : below.length - L.stack.length = 0 := by
    rw [stack, List.length_append]
    omega
  have extra : L.stack.length - below.length = above.length := by
    rw [stack, List.length_append]
    omega
  rw [settop, none_, extra, stack, List.drop_left]
  rfl

/-- The test for nil looks at the top only. -/
theorem isnilTop_iff (stack : L.stack = value :: rest) : L.isnilTop = true ↔ value = .nil := by
  rw [isnilTop, stack, List.head?_cons, beq_iff_eq, Option.some.injEq]

/-! ## Tables without handlers -/

/-- A table that is read and written as it is. -/
structure Plain (L : State Code) (h : Nat) : Prop where
  index : L.metafield (L.tables h).metatable "__index" = .nil
  newindex : L.metafield (L.tables h).metatable "__newindex" = .nil

/-- A table without a metatable is read and written directly. -/
theorem plain_of_none (bare : (L.tables h).metatable = none) : L.Plain h := by
  constructor <;> rw [bare] <;> rfl

/-- Whether a table is plain depends on the tables alone. -/
theorem Plain.congr {after : State Code} (plain : L.Plain h) (tables : after.tables = L.tables) :
    after.Plain h := by
  obtain ⟨index, newindex⟩ := plain
  unfold metafield at *
  rw [← tables] at index newindex
  exact ⟨index, newindex⟩

/-- **Reading a plain table** calls no handler. -/
theorem index_of_plain {turns : Nat} (plain : L.Plain h) (key : Value) :
    L.index (turns + 1) (.table h) key = .ok ((L.tables h).fields key) := by
  unfold index
  have handler : L.metafield (L.metatableOf (.table h)) "__index" = .nil := plain.index
  simp only [handler]
  split
  · rfl
  · next absent =>
      rw [not_not.mp absent]

/-- **Writing to a plain table** calls no handler. -/
theorem newindex_of_plain {turns : Nat} (plain : L.Plain h) (key value : Value) :
    L.newindex (turns + 1) (.table h) key value =
      .ok (L.setTable h ((L.tables h).set key value)) := by
  unfold newindex
  have handler : L.metafield (L.metatableOf (.table h)) "__newindex" = .nil := plain.newindex
  simp only [handler, or_true, ↓reduceIte]

/-- `lua_gettable` on a plain table replaces the key with what is stored there. -/
theorem gettable_of (here : L.index2adr idx = .ok (.table h)) (plain : L.Plain h)
    (stack : L.stack = key :: rest) :
    L.gettable idx = .ok { L with stack := (L.tables h).fields key :: rest } := by
  unfold gettable MAXTAGLOOP
  rw [here, stack]
  simp only [bind, Except.bind, index_of_plain plain]
  rfl

/-- `lua_getfield` on a plain table pushes what is stored there. -/
theorem getfield_of (here : L.index2adr idx = .ok (.table h)) (plain : L.Plain h) (k : String) :
    L.getfield idx k = .ok (L.push ((L.tables h).fields (.string k))) := by
  unfold getfield MAXTAGLOOP
  rw [here]
  simp only [bind, Except.bind, index_of_plain plain]
  rfl

/-- `lua_settable` on a plain table stores the value and takes both off the stack. -/
theorem settable_of (here : L.index2adr idx = .ok (.table h)) (plain : L.Plain h)
    (stack : L.stack = value :: key :: rest) :
    L.settable idx =
      .ok { L.setTable h ((L.tables h).set key value) with stack := rest } := by
  unfold settable MAXTAGLOOP
  rw [here, stack]
  simp only [bind, Except.bind, newindex_of_plain plain]
  rfl

/-- `lua_setfield` on a plain table stores the top of the stack. -/
theorem setfield_of (here : L.index2adr idx = .ok (.table h)) (plain : L.Plain h)
    (stack : L.stack = value :: rest) (k : String) :
    L.setfield idx k =
      .ok { L.setTable h ((L.tables h).set (.string k) value) with stack := rest } := by
  unfold setfield MAXTAGLOOP
  rw [here, stack]
  simp only [bind, Except.bind, newindex_of_plain plain]
  rfl

/-! ## Metatables of names -/

/-- `luaL_newmetatable` of a name that is taken pushes what is registered there. -/
theorem newmetatable_old {tname : String} (bare : (L.tables L.registry).metatable = none)
    (present : (L.tables L.registry).fields (.string tname) = value) (some_ : value ≠ .nil) :
    L.newmetatable tname = .ok (L.push value) := by
  have got := getfield_of (@index2adr_registry _ L) (plain_of_none bare) tname
  rw [present] at got
  have there : (L.push value).isnilTop ≠ true :=
    fun none_ => some_ ((isnilTop_iff rfl).mp none_)
  unfold newmetatable
  simp only [bind, Except.bind]
  rw [got]
  exact if_neg there

/-- `luaL_newmetatable` of a new name registers a table that is empty. -/
theorem newmetatable_new {tname : String} (bare : (L.tables L.registry).metatable = none)
    (old : L.registry < L.nextTable)
    (absent : (L.tables L.registry).fields (.string tname) = .nil) :
    L.newmetatable tname = .ok { L with
      tables := Function.update (Function.update L.tables L.nextTable .empty) L.registry
        ((L.tables L.registry).set (.string tname) (.table L.nextTable))
      nextTable := L.nextTable + 1
      stack := .table L.nextTable :: L.stack } := by
  have got := getfield_of (@index2adr_registry _ L) (plain_of_none bare) tname
  rw [absent] at got
  have popped : (L.push .nil).pop 1 = .ok L := pop_of (@rfl _ ([Value.nil] ++ L.stack)) rfl
  let made := L.newtable.push (.table L.nextTable)
  have same : made.tables L.registry = L.tables L.registry :=
    Function.update_of_ne (Nat.ne_of_lt old) _ _
  have copied : L.newtable.pushvalue (-1) = .ok made := pushvalue_of (index2adr_first rfl)
  have stored := setfield_of (@index2adr_registry _ made) (plain_of_none (same ▸ bare)) rfl tname
  unfold newmetatable
  simp only [bind, Except.bind]
  rw [got]
  simp only
  rw [if_pos ((isnilTop_iff rfl).mpr rfl), popped]
  simp only
  rw [copied]
  refine stored.trans (congrArg Except.ok (State.ext rfl ?_ rfl rfl rfl rfl rfl rfl))
  change Function.update made.tables L.registry ((made.tables L.registry).set _ _) = _
  rw [same]
  rfl

/-! ## What a value is -/

/-- `luaL_getmetafield` pushes nothing if the metatable has no such field. -/
theorem getmetafield_absent {event : String} {mt : Nat} (here : L.index2adr idx = .ok value)
    (owner : L.metatableOf value = some mt)
    (absent : (L.tables mt).fields (.string event) = .nil) :
    L.getmetafield idx event = .ok (false, L) := by
  have found : L.getmetatable idx = .ok (true, L.push (.table mt)) := by
    rw [getmetatable, here]
    simp only [bind, Except.bind, owner]
    rfl
  let asked := (L.push (.table mt)).push (.string event)
  have got : asked.rawget (-2) = .ok ((L.push (.table mt)).push .nil) := by
    rw [rawget, @index2adr_second _ asked (.table mt) _ L.stack rfl, ← absent]
    rfl
  have popped : ((L.push (.table mt)).push .nil).pop 2 = .ok L :=
    pop_of (@rfl _ ([Value.nil, .table mt] ++ L.stack)) rfl
  unfold getmetafield
  simp only [bind, Except.bind]
  rw [found]
  simp only [↓reduceIte]
  rw [got]
  simp only
  rw [if_pos ((isnilTop_iff rfl).mpr rfl), popped]
  rfl

/-- A value passes the check if it is a userdata with the metatable of the name. -/
theorem checkudata_cases {tname : String} (bare : (L.tables L.registry).metatable = none)
    (here : L.index2adr idx = .ok value) :
    (∃ u mt, value = .userdata u ∧ (L.udata u).metatable = some mt ∧
      (L.tables L.registry).fields (.string tname) = .table mt ∧
        L.checkudata idx tname = .ok (u, L)) ∨
      ∃ message, L.checkudata idx tname = .error (.raised message) := by
  unfold checkudata touserdata getmetatable
  rw [here]
  cases value with
  | userdata u =>
      cases owner : (L.udata u).metatable with
      | none =>
          have none_ : L.metatableOf (.userdata u) = none := owner
          simp only [bind, Except.bind, none_]
          exact Or.inr ⟨_, rfl⟩
      | some mt =>
          have some_ : L.metatableOf (.userdata u) = some mt := owner
          let pushed := L.push (.table mt)
          have got : pushed.getfield LUA_REGISTRYINDEX tname =
              .ok (pushed.push ((L.tables L.registry).fields (.string tname))) :=
            getfield_of (@index2adr_registry _ pushed) (plain_of_none bare) tname
          generalize correct_ : (L.tables L.registry).fields (.string tname) = correct at got ⊢
          have first : (pushed.push correct).index2adr (-1) = .ok correct := index2adr_first rfl
          have second : (pushed.push correct).index2adr (-2) = .ok (.table mt) :=
            index2adr_second rfl
          have popped : (pushed.push correct).pop 2 = .ok L :=
            pop_of (@rfl _ ([correct, .table mt] ++ L.stack)) rfl
          simp only [bind, Except.bind, some_, pure, Except.pure, ↓reduceIte]
          rw [got]
          simp only
          rw [first]
          simp only
          rw [second]
          simp only
          by_cases same : correct = .table mt
          · rw [if_pos same, popped]
            exact Or.inl ⟨u, mt, rfl, owner, same, rfl⟩
          · rw [if_neg same]
            exact Or.inr ⟨_, rfl⟩
  | _ => exact Or.inr ⟨_, rfl⟩

/-! ## What the collector clears -/

/-- What becomes of a value in a weak table. -/
def cleared (L : State Code) : Value → Value
  | .userdata u => if (L.udata u).finalized then .nil else .userdata u
  | value => value

/-- A table without a metatable holds what it refers to. -/
theorem isWeak_of_none (bare : (L.tables h).metatable = none) : L.isWeak h = false := by
  unfold isWeak
  rw [bare]
  rfl

/-- The collector clears no table that is not weak. -/
theorem cleartable_of_not_weak (strong : L.isWeak h = false) :
    L.cleartable.tables h = L.tables h :=
  if_neg (Bool.eq_false_iff.mp strong)

/-- The collector clears a weak table of what it has taken. -/
theorem cleartable_of_weak (weak : L.isWeak h = true) :
    L.cleartable.tables h =
      { L.tables h with fields := fun key => L.cleared ((L.tables h).fields key) } :=
  if_pos weak

end State

end Lua
