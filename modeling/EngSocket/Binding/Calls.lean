import EngSocket.Binding.Names

/-!
# What calls do

`thunk` finds the object of a userdata of its class and refuses everything else, `gc_T`
takes the object away from a userdata, and `push` gives an object the userdata that the
table of its metatable leads to, or a new one.
-/

namespace EngSocket

open Lua (Value Error State)

namespace LuaPlus

variable {L M : State Closure} {mt obj : Nat} {className : String} {value : Value}

/-- **`thunk`** calls the object of a userdata with the metatable of the name. -/
theorem thunk_cases (bare : (L.tables L.registry).metatable = none)
    (here : L.index2adr 1 = .ok value) :
    (∃ ud mt, value = .userdata ud ∧ (L.udata ud).metatable = some mt ∧
      Registered className mt L ∧ ∃ M, thunk className L = .ok ((L.udata ud).pointer, M)) ∨
      ∃ message, thunk className L = .error (.raised message) := by
  rcases @State.checkudata_cases _ L value 1 className bare here with
    ⟨ud, mt, rfl, owner, named, checked⟩ | ⟨message, refused⟩
  · refine Or.inl ⟨ud, mt, rfl, owner, named, ?_⟩
    have some_ : 0 < L.stack.length :=
      List.length_pos_of_mem (State.mem_of_index2adr here Value.noConfusion)
    have removed : L.remove 1 = .ok { L with stack := L.stack.eraseIdx (L.stack.length - 1) } := by
      have place : L.offset 1 = some (L.stack.length - 1) := if_pos some_
      rw [State.remove, place]
    unfold thunk check
    simp only [bind, Except.bind]
    rw [checked]
    simp only [pure, Except.pure]
    rw [removed]
    exact ⟨_, rfl⟩
  · refine Or.inr ⟨message, ?_⟩
    unfold thunk check
    simp only [bind, Except.bind]
    rw [refused]

/-- **`gc_T`** takes the object away. -/
theorem gc_T_eq {ud : Nat} (stack : L.stack = [.userdata ud])
    (owner : (L.udata ud).metatable = some mt) (trash : field mt "do not trash" L = .nil)
    (some_ : (L.udata ud).pointer ≠ 0) :
    gc_T L = .ok ((L.udata ud).pointer, L.setUdata ud { L.udata ud with pointer := 0 }) := by
  have holds : L.Holds 1 (.userdata ud) := ⟨[], [], stack, rfl⟩
  unfold gc_T
  simp only [bind, Except.bind]
  rw [State.getmetafield_absent holds.index2adr owner trash]
  simp only [Bool.false_eq_true, ↓reduceIte, pure, Except.pure]
  rw [State.touserdata, holds.index2adr]
  exact if_neg some_

/-! ## What a new userdata changes -/

/-- A userdata that is new leads to an object, and the table of its metatable leads to it. -/
structure Adds (mt obj : Nat) (L M : State Closure) : Prop where
  amends : Amends L M
  closures : M.closures = L.closures
  self : entry mt obj M = .userdata L.nextUdata
  others : ∀ {className mt' other}, Registered className mt' L → mt' ≠ mt ∨ other ≠ obj →
    entry mt' other M = entry mt' other L
  udata : M.udata = Function.update L.udata L.nextUdata
    { pointer := obj, metatable := some mt, finalized := false }
  nextUdata : M.nextUdata = L.nextUdata + 1
  tmudata : M.tmudata = L.tmudata

theorem Heap.adds (heap : Heap L) (here : Registered className mt L) {w : Nat}
    (leads : field mt "userdata" L = .table w) (obj : Nat) (stack : List Value) :
    Adds mt obj L { L with
      tables := Function.update L.tables w
        ((L.tables w).set (.lightuserdata obj) (.userdata L.nextUdata))
      udata := Function.update L.udata L.nextUdata
        { pointer := obj, metatable := some mt, finalized := false }
      nextUdata := L.nextUdata + 1
      stack } := by
  obtain ⟨weak, -, registry⟩ := heap.weak_apart here here leads
  generalize after : { L with
      tables := Function.update L.tables w
        ((L.tables w).set (.lightuserdata obj) (.userdata L.nextUdata))
      udata := Function.update L.udata L.nextUdata
        { pointer := obj, metatable := some mt, finalized := false }
      nextUdata := L.nextUdata + 1
      stack } = M
  have self : M.tables w = (L.tables w).set (.lightuserdata obj) (.userdata L.nextUdata) := by
    rw [← after]
    exact Function.update_self _ _ _
  have old {h : Nat} (apart : h ≠ w) : M.tables h = L.tables h := by
    rw [← after]
    exact Function.update_of_ne apart _ _
  have next : M.nextTable = L.nextTable := by rw [← after]
  have metatable {other : String} {mt' : Nat} (also : Registered other mt' L) :
      M.tables mt' = L.tables mt' :=
    old (Ne.symm (heap.weak_apart here also leads).2.1)
  have name (key : String) : field w key M = field w key L := by
    rw [field, self]
    exact Lua.Table.fields_set_of_ne Value.noConfusion _ _
  have amends : Amends L M := by
    refine ⟨by rw [← after], next.ge, by rw [← after], old (Ne.symm registry), ?_, ?_, ?_, ?_, ?_⟩
    · intro other mt' w' also leads'
      have weak' := (heap.weak_apart also also leads').1
      by_cases same : w' = w
      · subst same
        refine ⟨weak'.made.trans_le next.ge, ?_, ?_, ?_, ?_⟩
        · rw [self]
          exact weak'.own
        · exact (name _).trans weak'.mode
        · exact (name _).trans weak'.index
        · exact (name _).trans weak'.newindex
      · exact weak'.of_same next.ge (old same)
    · intro other mt' also
      rw [metatable also]
      exact (heap.metatable also).bare
    · exact fun also => field_of_same (metatable also)
    · exact fun also => field_of_same (metatable also)
    · exact fun also => Or.inl (field_of_same (metatable also))
  refine ⟨amends, by rw [← after], ?_, ?_, by rw [← after], by rw [← after], by rw [← after]⟩
  · rw [entry_of_table ((amends.userdata here).trans leads), self]
    exact Lua.Table.fields_set_self _ _ _
  · intro other mt' key also apart
    have same := amends.userdata also
    rcases (heap.metatable also).userdata with none_ | ⟨w', leads', -⟩
    · rw [entry_of_nil none_, entry_of_nil (same.trans none_)]
    · rw [entry_of_table leads', entry_of_table (same.trans leads')]
      by_cases equal : w' = w
      · subst equal
        rw [self]
        refine Lua.Table.fields_set_of_ne (fun clash => ?_) _ _
        exact apart.elim (fun different => different (heap.own also here leads' leads))
          fun different => different (Value.lightuserdata.inj clash)
      · rw [old equal]

/-- The table that `push` looks an object up in. -/
theorem Heap.lookup (heap : Heap L) (here : Registered className mt L) :
    ∃ K w, LuaPlus.subtable (L.stack.length + 1 : Nat) "userdata" "v" (L.push (.table mt)) = .ok K ∧
      K.stack = .table w :: .table mt :: L.stack ∧ Heap K ∧ Keeps L K ∧ K.closures = L.closures ∧
        field mt "userdata" K = .table w ∧
          ∀ obj, (K.tables w).fields (.lightuserdata obj) = entry mt obj L := by
  obtain ⟨amends, kept⟩ := @Heap.grow L (L.push (.table mt)) heap rfl (Nat.le_refl _)
    (List.prefix_refl _) (fun _ _ => rfl) rfl rfl rfl
  have registered : Registered className mt (L.push (.table mt)) := kept.registered here
  have holds : (L.push (.table mt)).Holds (L.stack.length + 1 : Nat) (.table mt) :=
    ⟨[], L.stack, rfl, rfl⟩
  obtain ⟨K, w, sub, stack, heapK, keeps, closures, -, leads⟩ :=
    (heap.amend amends).subtable registered holds
  refine ⟨K, w, sub, stack, heapK, kept.trans keeps, closures, leads, fun obj => ?_⟩
  rw [← entry_of_table leads, keeps.entry registered, kept.entry here]

/-- **`push` of an object without a userdata.** -/
theorem Heap.push_new (heap : Heap L) (here : Registered className mt L) (some_ : obj ≠ 0)
    (absent : entry mt obj L = .nil) :
    ∃ K M, push obj true className L = .ok M ∧ Heap K ∧ Keeps L K ∧ K.closures = L.closures ∧
      Adds mt obj K M ∧ M.stack = .userdata L.nextUdata :: L.stack := by
  obtain ⟨K, w, sub, stack, heapK, keeps, closures, leads, same⟩ := heap.lookup here
  have hereK : Registered className mt K := keeps.registered here
  have plain : K.Plain w := (heapK.weak_apart hereK hereK leads).1.plain
  exact ⟨K, _, LuaPlus.push_new some_ heap.bare here sub stack plain ((same obj).trans absent),
    heapK, keeps, closures, heapK.adds hereK leads obj _, by rw [keeps.nextUdata]⟩

/-- **`push` of an object with a userdata** gives that one once more. -/
theorem Heap.push_found (heap : Heap L) (here : Registered className mt L) (some_ : obj ≠ 0)
    (gc : Bool) {ud : Nat} (present : entry mt obj L = .userdata ud) :
    ∃ M, push obj gc className L = .ok M ∧ Keeps L M ∧ M.stack = .userdata ud :: L.stack := by
  obtain ⟨K, w, sub, stack, heapK, keeps, -, leads, same⟩ := heap.lookup here
  have hereK : Registered className mt K := keeps.registered here
  have plain : K.Plain w := (heapK.weak_apart hereK hereK leads).1.plain
  obtain ⟨-, last⟩ := @Heap.grow K { K with stack := .userdata ud :: L.stack } heapK rfl
    (Nat.le_refl _) (List.prefix_refl _) (fun _ _ => rfl) rfl rfl rfl
  exact ⟨_, LuaPlus.push_found some_ heap.bare here sub stack plain ((same obj).trans present)
    Value.noConfusion, keeps.trans last, rfl⟩

end LuaPlus

end EngSocket
