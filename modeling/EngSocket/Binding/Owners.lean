import EngSocket.Binding.Calls
import Mathlib.Data.List.Nodup

/-!
# Userdata and their objects

Every object belongs to one userdata, which the table of its metatable leads to until the
collector takes it, and which keeps the object until its finalizer has run
(`EngSocket.LuaPlus.Paired`). As the collector clears the tables when it takes userdata,
and not when it finalizes them, a new object never meets the userdata of an old one that
was at its address.
-/

namespace EngSocket

open Lua (Value Error State)

namespace LuaPlus

/-- A userdata of a class with an object that exists. -/
structure Owns (className : String) (mt ud : Nat) (L : State Closure)
    (objects : Nat → Option ScriptClass) : Prop where
  registered : Registered className mt L
  gc : field mt "__gc" L ≠ .nil
  metatable : (L.udata ud).metatable = some mt
  object : objects (L.udata ud).pointer = some (.of className)

/-- The userdata of a state and the objects. -/
structure Paired (L : State Closure) (objects : Nat → Option ScriptClass) : Prop where
  owns : ∀ ud < L.nextUdata, (L.udata ud).pointer ≠ 0 →
    ∃ className mt, Owns className mt ud L objects
  live : ∀ ud < L.nextUdata, (L.udata ud).finalized = false → (L.udata ud).pointer ≠ 0
  unique : ∀ ud < L.nextUdata, ∀ other < L.nextUdata, (L.udata ud).pointer ≠ 0 →
    (L.udata ud).pointer = (L.udata other).pointer → ud = other
  covered : ∀ obj T, objects obj = some T → obj ≠ 0 ∧
    ∃ ud < L.nextUdata, (L.udata ud).pointer = obj ∧
      ((L.udata ud).finalized = true → ud ∈ L.tmudata)
  leads : ∀ {className mt}, Registered className mt L → ∀ obj, entry mt obj L = .nil ∨
    ∃ ud < L.nextUdata, entry mt obj L = .userdata ud ∧ (L.udata ud).finalized = false ∧
      (L.udata ud).pointer = obj
  known : ∀ {mt ud}, ud < L.nextUdata → (L.udata ud).finalized = false →
    (L.udata ud).metatable = some mt → entry mt (L.udata ud).pointer L = .userdata ud
  waiting : ∀ ud ∈ L.tmudata, ud < L.nextUdata ∧ (L.udata ud).finalized = true ∧
    (L.udata ud).pointer ≠ 0
  once : L.tmudata.Nodup

variable {L M : State Closure} {mt obj ud : Nat} {className : String}
  {objects : Nat → Option ScriptClass}

/-- A userdata keeps its object while nothing touches it. -/
theorem Owns.keeps (owns : Owns className mt ud L objects) (keeps : Keeps L M) :
    Owns className mt ud M objects where
  registered := keeps.registered owns.registered
  gc := keeps.gc owns.registered owns.gc
  metatable := keeps.udata ▸ owns.metatable
  object := keeps.udata ▸ owns.object

/-- The metatable of a userdata that the collector has not taken is that of a class. -/
theorem Paired.registered (paired : Paired L objects) (made : ud < L.nextUdata)
    (live : (L.udata ud).finalized = false) (owner : (L.udata ud).metatable = some mt) :
    ∃ className, Owns className mt ud L objects := by
  obtain ⟨className, mt', owns⟩ := paired.owns ud made (paired.live ud made live)
  cases Option.some.inj (owns.metatable.symm.trans owner)
  exact ⟨className, owns⟩

/-- What changes neither userdata nor what leads to them keeps the pairs. -/
theorem Paired.keeps (paired : Paired L objects) (keeps : Keeps L M) :
    Paired M objects := by
  refine ⟨?owns, ?live, ?unique, ?covered, ?leads, ?known, ?waiting, ?once⟩
  case owns =>
    rw [keeps.nextUdata, keeps.udata]
    intro ud made some_
    obtain ⟨className, mt, owns⟩ := paired.owns ud made some_
    exact ⟨className, mt, owns.keeps keeps⟩
  case live =>
    rw [keeps.nextUdata, keeps.udata]
    exact paired.live
  case unique =>
    rw [keeps.nextUdata, keeps.udata]
    exact paired.unique
  case covered =>
    rw [keeps.nextUdata, keeps.udata, keeps.tmudata]
    exact paired.covered
  case leads =>
    intro className mt here obj
    rcases keeps.fresh here with old | none_
    · rw [keeps.entry old, keeps.nextUdata, keeps.udata]
      exact paired.leads old obj
    · exact Or.inl (none_ obj)
  case known =>
    rw [keeps.nextUdata, keeps.udata]
    intro mt ud made live owner
    obtain ⟨className, owns⟩ := paired.registered made live owner
    rw [keeps.entry owns.registered]
    exact paired.known made live owner
  case waiting =>
    rw [keeps.nextUdata, keeps.udata, keeps.tmudata]
    exact paired.waiting
  case once =>
    rw [keeps.tmudata]
    exact paired.once

/-- At an address without an object nothing is found. -/
theorem Paired.entry_of_free (paired : Paired L objects) (here : Registered className mt L)
    (free : objects obj = none) : entry mt obj L = .nil := by
  rcases paired.leads here obj with none_ | ⟨ud, made, -, live, rfl⟩
  · exact none_
  · obtain ⟨other, mt', owns⟩ := paired.owns ud made (paired.live ud made live)
    cases free.symm.trans owns.object

/-! ## A new object -/

/-- The new userdata leads to the object. -/
theorem Adds.udata_self (adds : Adds mt obj L M) :
    M.udata L.nextUdata = { pointer := obj, metatable := some mt, finalized := false } := by
  rw [adds.udata]
  exact Function.update_self _ _ _

/-- The userdata that were there are as they were. -/
theorem Adds.udata_old (adds : Adds mt obj L M) (made : ud < L.nextUdata) :
    M.udata ud = L.udata ud := by
  rw [adds.udata]
  exact Function.update_of_ne (Nat.ne_of_lt made) _ _

theorem Adds.lt_iff (adds : Adds mt obj L M) :
    ud < M.nextUdata ↔ ud < L.nextUdata ∨ ud = L.nextUdata := by
  rw [adds.nextUdata]
  exact Nat.lt_succ_iff_lt_or_eq

/-- No userdata leads to an address that is free. -/
theorem Paired.pointer_ne (paired : Paired L objects) (free : objects obj = none)
    (made : ud < L.nextUdata) (some_ : (L.udata ud).pointer ≠ 0) : (L.udata ud).pointer ≠ obj := by
  rintro rfl
  obtain ⟨className, mt, owns⟩ := paired.owns ud made some_
  cases free.symm.trans owns.object

/-- **A new object** at an address that is free, with its userdata. -/
theorem Paired.adds (paired : Paired L objects) (adds : Adds mt obj L M)
    (here : Registered className mt L) (gc : field mt "__gc" L ≠ .nil) (some_ : obj ≠ 0)
    (free : objects obj = none) :
    Paired M (Function.update objects obj (some (.of className))) := by
  have self := adds.udata_self
  have apart {ud : Nat} (made : ud < L.nextUdata) (pointer : (L.udata ud).pointer ≠ 0) :
      (L.udata ud).pointer ≠ obj := paired.pointer_ne free made pointer
  refine ⟨?owns, ?live, ?unique, ?covered, ?leads, ?known, ?waiting, ?once⟩
  case owns =>
    intro ud made pointer
    rcases adds.lt_iff.mp made with old | rfl
    · rw [adds.udata_old old] at pointer
      obtain ⟨other, mt', owns⟩ := paired.owns ud old pointer
      refine ⟨other, mt', adds.amends.registered_iff.mpr owns.registered,
        adds.amends.gc_some owns.registered owns.gc, ?_, ?_⟩
      · rw [adds.udata_old old]
        exact owns.metatable
      · rw [adds.udata_old old, Function.update_of_ne (apart old pointer)]
        exact owns.object
    · refine ⟨className, mt, adds.amends.registered_iff.mpr here, adds.amends.gc_some here gc, ?_,
        ?_⟩
      · rw [self]
      · rw [self]
        exact Function.update_self _ _ _
  case live =>
    intro ud made live
    rcases adds.lt_iff.mp made with old | rfl
    · rw [adds.udata_old old] at live ⊢
      exact paired.live ud old live
    · rw [self]
      exact some_
  case unique =>
    intro ud made other made' pointer same
    rcases adds.lt_iff.mp made with old | rfl <;> rcases adds.lt_iff.mp made' with old' | rfl
    · rw [adds.udata_old old] at pointer same
      rw [adds.udata_old old'] at same
      exact paired.unique ud old other old' pointer same
    · rw [adds.udata_old old] at pointer same
      rw [self] at same
      exact absurd same (apart old pointer)
    · rw [self, adds.udata_old old'] at same
      exact absurd same.symm (apart old' (same ▸ some_))
    · rfl
  case covered =>
    intro address T exists_
    by_cases new : address = obj
    · subst new
      refine ⟨some_, L.nextUdata, adds.lt_iff.mpr (Or.inr rfl), ?_, ?_⟩
      · rw [self]
      · rw [self]
        exact fun finalized => absurd finalized Bool.false_ne_true
    · rw [Function.update_of_ne new] at exists_
      obtain ⟨nonzero, ud, made, pointer, waits⟩ := paired.covered address T exists_
      refine ⟨nonzero, ud, adds.lt_iff.mpr (Or.inl made), ?_⟩
      rw [adds.udata_old made, adds.tmudata]
      exact ⟨pointer, waits⟩
  case leads =>
    intro other mt' here' address
    have before := adds.amends.registered_iff.mp here'
    by_cases new : mt' = mt ∧ address = obj
    · obtain ⟨rfl, rfl⟩ := new
      refine Or.inr ⟨L.nextUdata, adds.lt_iff.mpr (Or.inr rfl), adds.self, ?_, ?_⟩ <;> rw [self]
    · rw [adds.others before (not_and_or.mp new)]
      rcases paired.leads before address with none_ | ⟨ud, made, leads, live, pointer⟩
      · exact Or.inl none_
      · refine Or.inr ⟨ud, adds.lt_iff.mpr (Or.inl made), leads, ?_⟩
        rw [adds.udata_old made]
        exact ⟨live, pointer⟩
  case known =>
    intro mt' ud made live owner
    rcases adds.lt_iff.mp made with old | rfl
    · rw [adds.udata_old old] at live owner ⊢
      obtain ⟨other, owns⟩ := paired.registered old live owner
      rw [adds.others owns.registered (Or.inr (apart old (paired.live ud old live)))]
      exact paired.known old live owner
    · rw [self] at owner ⊢
      cases Option.some.inj owner
      exact adds.self
  case waiting =>
    rw [adds.tmudata]
    intro ud member
    obtain ⟨made, waits⟩ := paired.waiting ud member
    rw [adds.udata_old made]
    exact ⟨adds.lt_iff.mpr (Or.inl made), waits⟩
  case once =>
    rw [adds.tmudata]
    exact paired.once

/-! ## The collector takes userdata -/

theorem isWeak_of_weak {w : Nat} (weak : Weak w L) : L.isWeak w = true := by
  have mode : L.metafield (L.tables w).metatable "__mode" = .string "v" := by
    rw [weak.own]
    exact weak.mode
  unfold State.isWeak
  rw [mode]
  rfl

/-- The collector does not clear a table without a metatable. -/
theorem separate_tables_of_bare {us : List Nat} {h : Nat} (bare : (L.tables h).metatable = none) :
    (L.separate us).tables h = L.tables h :=
  State.cleartable_of_not_weak (State.isWeak_of_none bare)

/-- The collector clears a weak table of the userdata it has taken. -/
theorem separate_tables_of_weak {us : List Nat} {w : Nat} (weak : Weak w L) :
    (L.separate us).tables w = { L.tables w with
      fields := fun key => (L.separate us).cleared ((L.tables w).fields key) } :=
  State.cleartable_of_weak (isWeak_of_weak (weak.of_same (Nat.le_refl _) rfl))

/-- **Taking userdata** only amends the state. -/
theorem Heap.separate (heap : Heap L) (us : List Nat) : Amends L (L.separate us) := by
  have metatable {className : String} {mt : Nat} (here : Registered className mt L) :
      (L.separate us).tables mt = L.tables mt :=
    separate_tables_of_bare (heap.metatable here).bare
  refine ⟨rfl, Nat.le_refl _, List.prefix_refl _, separate_tables_of_bare heap.bare, ?_, ?_, ?_, ?_,
    ?_⟩
  · intro className mt w here leads
    have weak := (heap.weak_apart here here leads).1
    have name {key : String} {value : Value} (before : field w key L = value)
        (string : value.udata = none) : field w key (L.separate us) = value := by
      rw [field, separate_tables_of_weak weak]
      change (L.separate us).cleared (field w key L) = value
      rw [before]
      cases value with
      | userdata u => cases string
      | _ => rfl
    refine ⟨weak.made, ?_, name weak.mode rfl, name weak.index rfl, name weak.newindex rfl⟩
    rw [separate_tables_of_weak weak]
    exact weak.own
  · intro className mt here
    rw [metatable here]
    exact (heap.metatable here).bare
  · exact fun here => field_of_same (metatable here)
  · exact fun here => field_of_same (metatable here)
  · exact fun here => Or.inl (field_of_same (metatable here))

/-- What leads to userdata that are taken is gone. -/
theorem Heap.separate_entry (heap : Heap L) (us : List Nat) (here : Registered className mt L)
    (obj : Nat) :
    entry mt obj (L.separate us) = (L.separate us).cleared (entry mt obj L) := by
  have same := (heap.separate us).userdata here
  rcases (heap.metatable here).userdata with none_ | ⟨w, leads, weak⟩
  · rw [entry_of_nil none_, entry_of_nil (same.trans none_)]
    rfl
  · rw [entry_of_table leads, entry_of_table (same.trans leads), separate_tables_of_weak weak]

/-- **The collector takes userdata** that it has not taken yet. -/
theorem Paired.separate (paired : Paired L objects) (heap : Heap L) {us : List Nat}
    (nodup : us.Nodup)
    (takes : ∀ ud ∈ us, ud < L.nextUdata ∧ (L.udata ud).finalized = false) :
    Paired (L.separate us) objects := by
  have amends := heap.separate us
  have before {ud : Nat} (live : ((L.separate us).udata ud).finalized = false) :
      (L.udata ud).finalized = false ∧ ud ∉ us := by
    obtain ⟨live, outside⟩ := Bool.or_eq_false_iff.mp live
    exact ⟨live, fun member => by simp only [List.contains_eq_mem, member, decide_true,
      Bool.true_eq_false] at outside⟩
  have owned {className : String} {mt ud : Nat} (owns : Owns className mt ud L objects) :
      Owns className mt ud (L.separate us) objects :=
    ⟨amends.registered_iff.mpr owns.registered, amends.gc_some owns.registered owns.gc,
      owns.metatable, owns.object⟩
  have joins {ud : Nat} (member : ud ∈ us) : ud ∈ (L.separate us).tmudata := by
    obtain ⟨made, live⟩ := takes ud member
    obtain ⟨className, mt, owns⟩ := paired.owns ud made (paired.live ud made live)
    refine List.mem_append_right _ (List.mem_filter.mpr ⟨member, ?_⟩)
    rw [owns.metatable]
    exact decide_eq_true owns.gc
  refine ⟨?owns, ?live, ?unique, ?covered, ?leads, ?known, ?waiting, ?once⟩
  case owns =>
    intro ud made some_
    obtain ⟨className, mt, owns⟩ := paired.owns ud made some_
    exact ⟨className, mt, owned owns⟩
  case live =>
    exact fun ud made live => paired.live ud made (before live).1
  case unique =>
    exact paired.unique
  case covered =>
    intro obj T exists_
    obtain ⟨some_, ud, made, pointer, waits⟩ := paired.covered obj T exists_
    refine ⟨some_, ud, made, pointer, fun finalized => ?_⟩
    rcases Bool.or_eq_true_iff.mp finalized with old | taken
    · exact List.mem_append_left _ (waits old)
    · exact joins (List.contains_iff_mem.mp taken)
  case leads =>
    intro className mt here obj
    have old := amends.registered_iff.mp here
    rw [heap.separate_entry us old]
    rcases paired.leads old obj with none_ | ⟨ud, made, leads, -, pointer⟩
    · rw [none_]
      exact Or.inl rfl
    · rw [leads]
      cases finalized : ((L.separate us).udata ud).finalized with
      | true => exact Or.inl (if_pos finalized)
      | false =>
          have kept : (L.separate us).cleared (.userdata ud) = .userdata ud :=
            if_neg (Bool.eq_false_iff.mp finalized)
          exact Or.inr ⟨ud, made, kept, finalized, pointer⟩
  case known =>
    intro mt ud made live owner
    obtain ⟨className, owns⟩ := paired.registered made (before live).1 owner
    have found := heap.separate_entry us owns.registered (L.udata ud).pointer
    rw [paired.known made (before live).1 owner] at found
    exact found.trans (if_neg (Bool.eq_false_iff.mp live))
  case waiting =>
    intro ud member
    rcases List.mem_append.mp member with old | new
    · obtain ⟨made, finalized, some_⟩ := paired.waiting ud old
      exact ⟨made, Bool.or_eq_true_iff.mpr (Or.inl finalized), some_⟩
    · have taken := (List.mem_filter.mp new).1
      obtain ⟨made, live⟩ := takes ud taken
      exact ⟨made, Bool.or_eq_true_iff.mpr (Or.inr (List.contains_iff_mem.mpr taken)),
        paired.live ud made live⟩
  case once =>
    refine List.nodup_append.mpr ⟨paired.once, nodup.filter _, ?_⟩
    rintro ud old other new rfl
    have live := (takes ud (List.mem_filter.mp new).1).2
    exact Bool.false_ne_true (live.symm.trans (paired.waiting ud old).2.1)

/-! ## A finalizer -/

/-- **The finalizer of a userdata** that waits for it has destroyed its object. -/
theorem Paired.finalize (paired : Paired L objects) {waiting : List Nat}
    (first : L.tmudata = ud :: waiting) (stack : List Value) :
    Paired { L with
      udata := Function.update L.udata ud { L.udata ud with pointer := 0 }
      tmudata := waiting
      stack } (Function.update objects (L.udata ud).pointer none) := by
  have self : Function.update L.udata ud { L.udata ud with pointer := 0 } ud =
      { L.udata ud with pointer := 0 } := Function.update_self _ _ _
  have old {other : Nat} (apart : other ≠ ud) :
      Function.update L.udata ud { L.udata ud with pointer := 0 } other = L.udata other :=
    Function.update_of_ne apart _ _
  have nodup := paired.once
  rw [first] at nodup
  obtain ⟨outside, rest⟩ := List.nodup_cons.mp nodup
  obtain ⟨made, finalized, some_⟩ := paired.waiting ud (first ▸ List.mem_cons_self)
  have others {other : Nat} (live : (L.udata other).finalized = false) : other ≠ ud := by
    rintro rfl
    exact Bool.false_ne_true (live.symm.trans finalized)
  have pointed {other : Nat}
      (pointer : (Function.update L.udata ud { L.udata ud with pointer := 0 } other).pointer ≠ 0) :
      other ≠ ud := by
    rintro rfl
    rw [self] at pointer
    exact pointer rfl
  have finalized_ (other : Nat) :
      (Function.update L.udata ud { L.udata ud with pointer := 0 } other).finalized =
        (L.udata other).finalized := by
    by_cases same : other = ud
    · subst same
      rw [self]
    · rw [old same]
  refine ⟨?owns, ?live, ?unique, ?covered, ?leads, ?known, ?waiting, ?once⟩
  case owns =>
    intro other below pointer
    have apart := pointed pointer
    simp only [old apart] at pointer
    obtain ⟨className, mt, owns⟩ := paired.owns other below pointer
    have different : (L.udata other).pointer ≠ (L.udata ud).pointer :=
      fun same => apart (paired.unique other below ud made pointer same)
    refine ⟨className, mt, owns.registered, owns.gc, ?_, ?_⟩
    · simp only [old apart]
      exact owns.metatable
    · simp only [old apart]
      rw [Function.update_of_ne different]
      exact owns.object
  case live =>
    intro other below live
    have before := (finalized_ other).symm.trans live
    simp only [old (others before)]
    exact paired.live other below before
  case unique =>
    intro one below other below' pointer same
    have apart := pointed pointer
    have apart' : other ≠ ud := pointed (same ▸ pointer)
    simp only [old apart] at pointer same
    simp only [old apart'] at same
    exact paired.unique one below other below' pointer same
  case covered =>
    intro obj T exists_
    by_cases gone : obj = (L.udata ud).pointer
    · subst gone
      rw [Function.update_self] at exists_
      cases exists_
    · rw [Function.update_of_ne gone] at exists_
      obtain ⟨nonzero, other, below, rfl, waits⟩ := paired.covered obj T exists_
      have apart : other ≠ ud := by
        rintro rfl
        exact gone rfl
      refine ⟨nonzero, other, below, ?_, fun taken => ?_⟩
      · simp only [old apart]
      · have member := waits ((finalized_ other).symm.trans taken)
        rw [first] at member
        exact (List.mem_cons.mp member).resolve_left apart
  case leads =>
    intro className mt here obj
    rcases paired.leads here obj with none_ | ⟨other, below, leads, live, pointer⟩
    · exact Or.inl none_
    · refine Or.inr ⟨other, below, leads, (finalized_ other).trans live, ?_⟩
      simp only [old (others live)]
      exact pointer
  case known =>
    intro mt other below live owner
    have before := (finalized_ other).symm.trans live
    simp only [old (others before)] at owner ⊢
    exact paired.known below before owner
  case waiting =>
    intro other member
    have apart : other ≠ ud := by
      rintro rfl
      exact outside member
    simp only [old apart]
    exact paired.waiting other (first ▸ List.mem_cons_of_mem _ member)
  case once =>
    exact rest

end LuaPlus

end EngSocket
