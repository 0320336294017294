import EngSocket.Binding.Objects
import EngSocket.Binding.Owners
import EngSocket.Foundation.Simulation

/-!
# The lifetimes of objects

Whatever scripts do, in whatever order the collector works, every object is destroyed once,
by the destructor of its class (`EngSocket.Binding.changes`), and no object is out of reach
of the collector (`EngSocket.Binding.can_destroy`). While scripts get nothing back that the
collector has taken, every call of a method finds an object of its class
(`EngSocket.Binding.lifetimes`). Socket classes must have other names than the class of
messages: a class of the same name shares its metatable, and with it the finalizer.
-/

namespace EngSocket

open Foundation Foundation.Lifetime
open Lua (Value Error State)

namespace Binding

/-- A socket class has a name of its own. -/
def Named (_ : Binding) : BindingEvent → Prop
  | .RegisteSocketClass className _ => className ≠ ScriptClass.CLuaMsg.className
  | _ => True

instance (binding : Binding) : ∀ event, Decidable (Named binding event)
  | .RegisteSocketClass className _ =>
      inferInstanceAs (Decidable (className ≠ ScriptClass.CLuaMsg.className))
  | .RegisterLuaSocketObject | .new _ _ _ | .method _ _ | .drop _ | .regain _ | .separate _
  | .GCTM => .isTrue trivial

/-- What a script gets back the collector has not taken. -/
def Untaken (binding : Binding) : BindingEvent → Prop
  | .regain ud => (binding.lua.udata ud).finalized = false
  | _ => True

instance (binding : Binding) : DecidablePred binding.Untaken
  | .regain ud => inferInstanceAs (Decidable ((binding.lua.udata ud).finalized = false))
  | .RegisterLuaSocketObject | .RegisteSocketClass _ _ | .new _ _ _ | .method _ _ | .drop _
  | .separate _ | .GCTM => .isTrue trivial

structure Sound (binding : Binding) : Prop where
  heap : LuaPlus.Heap binding.lua
  callable : LuaPlus.Callable binding.lua
  paired : LuaPlus.Paired binding.lua binding.objects

/-- What the script holds the collector has not taken. -/
def Live (binding : Binding) : Prop :=
  ∀ ud ∈ binding.held, ud < binding.lua.nextUdata ∧ (binding.lua.udata ud).finalized = false

variable {binding next : Binding} {T : ScriptClass} {className : String} {args : List Value}
  {obj f ud : Nat}

theorem sound_initial : initial.Sound := by
  have none_ {className : String} {mt : Nat} : ¬ LuaPlus.Registered className mt initial.lua :=
    fun here => Value.noConfusion (here : Value.nil = .table mt)
  refine ⟨⟨Nat.zero_lt_one, rfl, fun _ => Or.inl rfl, fun here => absurd here none_,
    fun here => absurd here none_, fun here => absurd here none_⟩, ?_, ?_⟩
  · exact fun _ member => absurd member List.not_mem_nil
  · exact {
      owns := fun ud made => absurd made (Nat.not_lt_zero ud)
      live := fun ud made => absurd made (Nat.not_lt_zero ud)
      unique := fun ud made => absurd made (Nat.not_lt_zero ud)
      covered := fun _ _ exists_ => absurd exists_.symm (Option.some_ne_none _)
      leads := fun here => absurd here none_
      known := fun made => absurd made (Nat.not_lt_zero _)
      waiting := fun _ member => absurd member List.not_mem_nil
      once := List.nodup_nil }

/-- A call begins with a stack of its own and everything else as it is. -/
theorem Sound.frame (sound : binding.Sound) (stack : List Value) :
    LuaPlus.Heap { binding.lua with stack } ∧
      LuaPlus.Keeps binding.lua { binding.lua with stack } ∧
        LuaPlus.Callable { binding.lua with stack } := by
  obtain ⟨amends, keeps⟩ := @LuaPlus.Heap.grow binding.lua { binding.lua with stack } sound.heap rfl
    (Nat.le_refl _) (List.prefix_refl _) (fun _ _ => rfl) rfl rfl rfl
  exact ⟨sound.heap.amend amends, keeps, sound.callable.keeps keeps rfl⟩

/-- What leaves the userdata alone takes none of them. -/
theorem Live.keeps (live : binding.Live) {lua : State Closure}
    (keeps : LuaPlus.Keeps binding.lua lua) : Live { binding with lua } := by
  unfold Live
  rw [keeps.nextUdata, keeps.udata]
  exact live

/-! ## Registration -/

/-- `Register` goes through, and touches no userdata. -/
theorem Sound.register (sound : binding.Sound) :
    ∃ lua, binding.register .CLuaMsg = some { binding with lua } ∧
      Sound { binding with lua } ∧ LuaPlus.Keeps binding.lua lua := by
  obtain ⟨heap, keeps, callable⟩ := sound.frame [Value.nil].tail.reverse
  obtain ⟨lua, ran, heap', keeps', callable'⟩ := heap.register .CLuaMsg (by decide) callable
  have done : LuaPlus.Register .CLuaMsg (binding.frame []) = .ok lua := ran
  refine ⟨lua, ?_, ⟨heap', callable', sound.paired.keeps (keeps.trans keeps')⟩,
    keeps.trans keeps'⟩
  rw [Binding.register, done]
  rfl

/-- So does `RegisteSocketClass`, for a class with a name of its own. -/
theorem Sound.registeSocketClass (sound : binding.Sound) (published : Bool)
    (named : className ≠ ScriptClass.CLuaMsg.className) :
    ∃ lua, binding.registeSocketClass className published = some { binding with lua } ∧
      Sound { binding with lua } ∧ LuaPlus.Keeps binding.lua lua := by
  obtain ⟨heap, keeps, callable⟩ := sound.frame [.string className]
  obtain ⟨lua, ran, heap', keeps', callable'⟩ :=
    heap.registeSocketClassL className published callable
  rw [ScriptClass.of, if_neg named] at ran
  have done : LuaPlus.RegisteSocketClassL .SocketObject className published
      (binding.frame [.string className]) = .ok lua := ran
  refine ⟨lua, ?_, ⟨heap', callable', sound.paired.keeps (keeps.trans keeps')⟩,
    keeps.trans keeps'⟩
  rw [Binding.registeSocketClass, done]
  rfl

/-! ## New objects -/

/-- **`new_T`** makes an object, with a userdata that is new. -/
theorem Sound.new (sound : binding.Sound)
    (code : binding.lua.closures[f]? = some (.new_T T className)) (some_ : args ≠ [])
    (nonzero : obj ≠ 0) (free : binding.objects obj = none) (passes : binding.Passes args) :
    ∃ next, binding.new T className args obj = some next ∧ next.Sound ∧
      (binding.Live → next.Live) ∧
        next.objects = Function.update binding.objects obj (some T) := by
  obtain ⟨rfl, mt, here, gc⟩ := sound.callable _ (List.mem_of_getElem? code) T className rfl
  have stacked : 0 < (binding.frame args).stack.length := by
    change 0 < args.reverse.length
    rw [List.length_reverse]
    exact List.length_pos_iff.mpr some_
  have place : (binding.frame args).offset 1 = some ((binding.frame args).stack.length - 1) :=
    if_pos stacked
  have removed : (binding.frame args).remove 1 = .ok { binding.lua with
      stack := (binding.frame args).stack.eraseIdx ((binding.frame args).stack.length - 1) } := by
    rw [State.remove, place]
    rfl
  obtain ⟨heap, keeps, callable⟩ :=
    sound.frame ((binding.frame args).stack.eraseIdx ((binding.frame args).stack.length - 1))
  obtain ⟨K, lua, pushed, heapK, keepsK, closures, adds, stack⟩ :=
    heap.push_new (keeps.registered here) nonzero
      ((keeps.entry here obj).trans (sound.paired.entry_of_free here free))
  have ran : LuaPlus.new_T obj className (binding.frame args) = .ok lua := by
    unfold LuaPlus.new_T
    simp only [bind, Except.bind]
    rw [removed]
    exact pushed
  have kept := keeps.trans keepsK
  have hereK := kept.registered here
  have callableK := (callable.keeps keepsK closures)
  refine ⟨⟨lua, Function.update binding.objects obj (some (.of className)),
    binding.lua.nextUdata :: binding.held⟩, ?_, ⟨heapK.amend adds.amends, ?_, ?_⟩, ?_, rfl⟩
  · rw [Binding.new, if_pos ⟨nonzero, free, passes⟩, ran]
    simp only [Except.toOption, Option.bind_eq_bind, Option.bind_some]
    rw [stack]
    rfl
  · exact callableK.amends adds.amends adds.closures
  · exact (sound.paired.keeps kept).adds adds hereK (kept.gc here gc) nonzero free
  · intro live ud member
    rcases List.mem_cons.mp member with rfl | old
    · rw [← kept.nextUdata, adds.udata_self]
      exact ⟨adds.lt_iff.mpr (Or.inr rfl), rfl⟩
    · obtain ⟨made, finalized⟩ := live.keeps kept ud old
      rw [adds.udata_old made]
      exact ⟨adds.lt_iff.mpr (Or.inl made), finalized⟩

/-- What a call of `new` needs. -/
theorem new_eq_some (made : binding.new T className args obj = some next) :
    args ≠ [] ∧ obj ≠ 0 ∧ binding.objects obj = none ∧ binding.Passes args := by
  unfold Binding.new at made
  by_cases allowed : obj ≠ 0 ∧ binding.objects obj = none ∧ binding.Passes args
  · refine ⟨?_, allowed⟩
    rintro rfl
    rw [if_pos allowed] at made
    cases made
  · rw [if_neg allowed] at made
    cases made

/-! ## Calls -/

/-- **A method that is called** with what the collector has not taken finds an object of
its class. -/
theorem Sound.called (sound : binding.Sound) {method : String}
    (code : binding.lua.closures[f]? = some (.thunk T method className))
    (passes : binding.Passes args) :
    ∃ answer, binding.called className args = some answer ∧
      (binding.Live → ∀ obj ∈ answer, binding.objects obj = some T) := by
  obtain ⟨rfl, mt, here, -⟩ := sound.callable _ (List.mem_of_getElem? code) T className rfl
  obtain ⟨value, first⟩ := State.index2adr_one (binding.frame args)
  rcases @LuaPlus.thunk_cases (binding.frame args) className value sound.heap.bare first with
    ⟨ud, mt', rfl, owner, named, M, ran⟩ | ⟨message, refused⟩
  · refine ⟨some (binding.lua.udata ud).pointer, ?_, ?_⟩
    · rw [Binding.called, if_pos passes, ran]
      rfl
    · intro live obj same
      cases same
      have member : Value.userdata ud ∈ args :=
        List.mem_reverse.mp (State.mem_of_index2adr first Value.noConfusion)
      have held : ud ∈ binding.held :=
        passes ud (List.mem_filterMap.mpr ⟨_, member, rfl⟩)
      obtain ⟨made, finalized⟩ := live ud held
      obtain ⟨other, owns⟩ := sound.paired.registered made finalized owner
      cases sound.heap.apart owns.registered named
      exact owns.object
  · refine ⟨none, ?_, fun _ obj same => absurd same (Option.not_mem_none obj)⟩
    rw [Binding.called, if_pos passes, refused]

/-! ## The collector -/

/-- **A finalizer** destroys the object of its userdata. -/
theorem Sound.collect (sound : binding.Sound) {waiting : List Nat}
    (first : binding.lua.tmudata = ud :: waiting) :
    ∃ className next, binding.collect =
        some ([.destroy (binding.lua.udata ud).pointer (.of className)], next) ∧ next.Sound ∧
      binding.objects (binding.lua.udata ud).pointer = some (.of className) ∧
        next.objects = Function.update binding.objects (binding.lua.udata ud).pointer none ∧
          next.held = binding.held ∧ next.lua.tmudata = waiting ∧
            next.lua.nextUdata = binding.lua.nextUdata ∧ ∀ other,
              (next.lua.udata other).finalized = (binding.lua.udata other).finalized := by
  obtain ⟨made, -, some_⟩ := sound.paired.waiting ud (first ▸ List.mem_cons_self)
  obtain ⟨className, mt, owns⟩ := sound.paired.owns ud made some_
  obtain ⟨-, -, bare, gc, trash, -⟩ := sound.heap.metatable owns.registered
  obtain ⟨g, finalizer, code⟩ := gc.resolve_left owns.gc
  have called : binding.lua.finalizer =
      some (ud, .function g, { binding.lua with tmudata := waiting }) := by
    have handler : binding.lua.metafield (binding.lua.udata ud).metatable "__gc" = .function g := by
      rw [owns.metatable]
      exact finalizer
    rw [State.finalizer, first]
    simp only [handler]
  have deleted := @LuaPlus.gc_T_eq
    { binding.lua with tmudata := waiting, stack := [.userdata ud] } mt ud rfl owns.metatable trash
    some_
  let next : Binding :=
    { lua := { binding.lua with
        udata := Function.update binding.lua.udata ud { binding.lua.udata ud with pointer := 0 }
        tmudata := waiting
        stack := [.userdata ud] }
      objects := Function.update binding.objects (binding.lua.udata ud).pointer none
      held := binding.held }
  have finalized : binding.finalize ud { binding.lua with tmudata := waiting } =
      some ((binding.lua.udata ud).pointer, next) := by
    rw [finalize, deleted]
    exact if_neg some_
  have amends : LuaPlus.Amends binding.lua next.lua :=
    ⟨rfl, Nat.le_refl _, List.prefix_refl _, rfl,
      fun here leads => (sound.heap.weak_apart here here leads).1.of_same (Nat.le_refl _) rfl,
      fun here => (sound.heap.metatable here).bare, fun _ => rfl, fun _ => rfl,
      fun _ => Or.inl rfl⟩
  refine ⟨className, next, ?_, ⟨sound.heap.amend amends, sound.callable.amends amends rfl,
    sound.paired.finalize first _⟩, owns.object, rfl, rfl, rfl, rfl, fun other => ?_⟩
  · rw [Binding.collect, called]
    simp only [Option.bind_eq_bind, Option.bind_some]
    rw [code]
    simp only
    rw [finalized]
    simp only [Option.bind_some, if_neg some_]
    rfl
  · change (Function.update binding.lua.udata ud _ other).finalized = _
    by_cases same : other = ud
    · subst same
      rw [Function.update_self]
    · rw [Function.update_of_ne same]

/-- Without a userdata that waits there is nothing to finalize. -/
theorem collect_of_none (none_ : binding.lua.tmudata = []) : binding.collect = none := by
  have nothing : binding.lua.finalizer = none := by rw [State.finalizer, none_]
  rw [collect, nothing]
  rfl

/-- **Taking userdata** keeps everything in order. -/
theorem Sound.separate (sound : binding.Sound) {us : List Nat} (takes : binding.Takes us) :
    Sound { binding with lua := binding.lua.separate us } :=
  have amends := sound.heap.separate us
  ⟨sound.heap.amend amends, sound.callable.amends amends rfl,
    sound.paired.separate sound.heap takes.1 fun ud taken =>
      ⟨(takes.2 ud taken).1, (takes.2 ud taken).2.1⟩⟩

/-- The collector takes nothing that the script holds. -/
theorem Live.separate (live : binding.Live) {us : List Nat} (takes : binding.Takes us) :
    Live { binding with lua := binding.lua.separate us } := by
  intro ud member
  obtain ⟨made, finalized⟩ := live ud member
  have outside : ud ∉ us := fun taken => (takes.2 ud taken).2.2 member
  refine ⟨made, Bool.or_eq_false_iff.mpr ⟨finalized, ?_⟩⟩
  rw [List.contains_eq_mem, decide_eq_false outside]

/-! ## Runs -/

/-- **What an event does to objects** is allowed, calls apart, and keeps everything in
order. -/
theorem Sound.effect (sound : binding.Sound) {event : BindingEvent} (named : Named binding event)
    {acts : List (Action Nat ScriptClass)} (done : binding.effect event = some (acts, next)) :
    next.Sound ∧
      Lifetime.machine.run binding.objects (acts.filter Action.alters) = some next.objects ∧
        (binding.Untaken event → binding.Live →
          next.Live ∧ Lifetime.machine.run binding.objects acts = some next.objects) := by
  cases event with
  | RegisterLuaSocketObject =>
      obtain ⟨lua, ran, sound', keeps⟩ := sound.register
      rw [Binding.effect, ran] at done
      cases done
      exact ⟨sound', rfl, fun _ live => ⟨live.keeps keeps, rfl⟩⟩
  | RegisteSocketClass className published =>
      obtain ⟨lua, ran, sound', keeps⟩ := sound.registeSocketClass published named
      rw [Binding.effect, ran] at done
      cases done
      exact ⟨sound', rfl, fun _ live => ⟨live.keeps keeps, rfl⟩⟩
  | new f args obj =>
      unfold Binding.effect at done
      simp only at done
      split at done
      · next T className code =>
          obtain ⟨after, made, same⟩ := Option.map_eq_some_iff.mp done
          cases same
          obtain ⟨some_, nonzero, free, passes⟩ := new_eq_some made
          obtain ⟨other, made', sound', lives, objects⟩ := sound.new code some_ nonzero free passes
          cases made'.symm.trans made
          have ran : Lifetime.machine.run binding.objects [.construct obj T] =
              some next.objects := by
            rw [objects, Machine.run_cons]
            simp only [Lifetime.machine, if_pos free, Option.bind_some, Machine.run_nil]
          exact ⟨sound', ran, fun _ live => ⟨lives live, ran⟩⟩
      · cases done
  | method f args =>
      unfold Binding.effect at done
      simp only at done
      split at done
      · next T method className code =>
          obtain ⟨answer, called, same⟩ := Option.map_eq_some_iff.mp done
          cases same
          have passes : binding.Passes args := by
            by_contra refused
            rw [Binding.called, if_neg refused] at called
            cases called
          obtain ⟨other, called', finds⟩ := sound.called code passes
          cases called'.symm.trans called
          cases answer with
          | none => exact ⟨sound, rfl, fun _ live => ⟨live, rfl⟩⟩
          | some obj =>
              refine ⟨sound, rfl, fun _ live => ⟨live, ?_⟩⟩
              have exists_ := finds live obj rfl
              rw [Option.toList_some, List.map_singleton, Machine.run_cons]
              simp only [Lifetime.machine, if_pos exists_, Option.bind_some, Machine.run_nil]
      · cases done
  | drop ud =>
      cases done
      exact ⟨⟨sound.heap, sound.callable, sound.paired⟩, rfl, fun _ live =>
        ⟨fun other member => live other (List.mem_filter.mp member).1, rfl⟩⟩
  | regain ud =>
      unfold Binding.effect at done
      simp only at done
      split at done
      · next made =>
          cases done
          exact ⟨⟨sound.heap, sound.callable, sound.paired⟩, rfl, fun untaken live =>
            ⟨List.forall_mem_cons.mpr ⟨⟨made, untaken⟩, live⟩, rfl⟩⟩
      · cases done
  | separate us =>
      unfold Binding.effect at done
      simp only at done
      by_cases takes : binding.Takes us
      · rw [if_pos takes] at done
        cases done
        exact ⟨sound.separate takes, rfl, fun _ live => ⟨live.separate takes, rfl⟩⟩
      · rw [if_neg takes] at done
        cases done
  | GCTM =>
      cases waits : binding.lua.tmudata with
      | nil =>
          rw [Binding.effect, collect_of_none waits] at done
          cases done
      | cons ud waiting =>
          obtain ⟨className, after, collected, sound', object, objects, held, -, made, finalized⟩ :=
            sound.collect waits
          rw [Binding.effect, collected] at done
          cases done
          have ran : Lifetime.machine.run binding.objects
              [.destroy (binding.lua.udata ud).pointer (.of className)] = some next.objects := by
            rw [objects, Machine.run_cons]
            simp only [Lifetime.machine, if_pos object, Option.bind_some, Machine.run_nil]
          refine ⟨sound', ran, fun _ live => ⟨fun other member => ?_, ran⟩⟩
          rw [made, finalized other]
          exact live other (held ▸ member)

/-- A step is what its event does. -/
theorem Sound.step (sound : binding.Sound) {event : BindingEvent} (named : Named binding event)
    (stepped : machine.step binding event = some next) :
    next.Sound ∧
      Lifetime.machine.run binding.objects ((actions binding event).filter Action.alters) =
        some next.objects ∧
        (binding.Untaken event → binding.Live → next.Live ∧
          Lifetime.machine.run binding.objects (actions binding event) = some next.objects) := by
  obtain ⟨done, effect, same⟩ := Option.map_eq_some_iff.mp stepped
  cases same
  have acts : actions binding event = done.1 := by
    rw [actions, effect]
    rfl
  rw [acts]
  exact sound.effect named effect

/-- What is made and destroyed is a run of objects, whatever scripts get back. -/
theorem alters : Simulation machine Lifetime.machine Named
    (fun binding event => (actions binding event).filter Action.alters) fun binding objects =>
      binding.Sound ∧ objects = binding.objects := by
  rintro binding objects event next named ⟨sound, rfl⟩ stepped
  obtain ⟨sound', ran, -⟩ := sound.step named stepped
  exact ⟨next.objects, ran, sound', rfl⟩

/-- So are calls, while scripts get nothing back that was taken. -/
theorem simulates : Simulation machine Lifetime.machine
    (fun binding event => Named binding event ∧ binding.Untaken event) actions
    fun binding objects => (binding.Sound ∧ binding.Live) ∧ objects = binding.objects := by
  rintro binding objects event next ⟨named, untaken⟩ ⟨⟨sound, live⟩, rfl⟩ stepped
  obtain ⟨sound', -, calls⟩ := sound.step named stepped
  obtain ⟨live', ran⟩ := calls untaken live
  exact ⟨next.objects, ran, ⟨sound', live'⟩, rfl⟩

theorem live_initial : initial.Live := List.forall_mem_nil _

/-- Everything is in order after every run. -/
theorem sound_of_run {events : List BindingEvent} {final : Binding}
    (named : machine.Meets Named initial events)
    (reached : machine.run initial events = some final) : final.Sound := by
  obtain ⟨-, -, sound, -⟩ := alters.run named reached ⟨sound_initial, rfl⟩
  exact sound

/-- What scripts hold was not taken if they got nothing back that was. -/
theorem live_of_run {events : List BindingEvent} {final : Binding}
    (named : machine.Meets Named initial events) (untaken : machine.Meets Untaken initial events)
    (reached : machine.run initial events = some final) : final.Live := by
  obtain ⟨-, -, ⟨-, live⟩, -⟩ :=
    simulates.run (named.and untaken) reached ⟨⟨sound_initial, live_initial⟩, rfl⟩
  exact live

/-- **Every object is destroyed once**, as what it is. -/
theorem changes {events : List BindingEvent} {final : Binding}
    (named : machine.Meets Named initial events)
    (reached : machine.run initial events = some final) :
    Lifetime.machine.run (fun _ => none)
      ((machine.observe actions initial events).filter Action.alters) = some final.objects := by
  obtain ⟨objects, ran, -, rfl⟩ := alters.run named reached ⟨sound_initial, rfl⟩
  rw [← Machine.observe_filter]
  exact ran

/-- **No object is used outside its lifetime.** What scripts and the collector do to
objects in a run is a run of objects: each is made at an address that is free, called as
what it is while it exists, and destroyed once, as what it is. -/
theorem lifetimes {events : List BindingEvent} {final : Binding}
    (named : machine.Meets Named initial events) (untaken : machine.Meets Untaken initial events)
    (reached : machine.run initial events = some final) :
    Lifetime.machine.run (fun _ => none) (machine.observe actions initial events) =
      some final.objects := by
  obtain ⟨objects, ran, -, rfl⟩ :=
    simulates.run (named.and untaken) reached ⟨⟨sound_initial, live_initial⟩, rfl⟩
  exact ran

/-- A message is let go of, for good the second time, while a socket class is registered,
and a socket is placed at its address once it is gone. -/
def reuse : List BindingEvent :=
  [.RegisterLuaSocketObject, .new 2 [.table 1] 100, .drop 0, .regain 0, .method 3 [.userdata 0],
    .drop 0, .separate [0], .RegisteSocketClass "Chat" true, .GCTM, .new 13 [.nil] 100]

theorem reuse_named : machine.Meets Named initial reuse :=
  @Machine.Meets.of_forall_mem _ _ machine (Named initial) reuse (by decide) initial

theorem reuse_untaken : machine.Meets Untaken initial reuse := by decide +kernel

theorem reuse_runs : ∃ final, machine.run initial reuse = some final :=
  Option.isSome_iff_exists.mp (by decide +kernel)

theorem lifetimes_reuse :
    ∃ final, machine.run initial reuse = some final ∧
      Lifetime.machine.run (fun _ => none) [.construct 100 .CLuaMsg, .invoke 100 .CLuaMsg,
        .destroy 100 .CLuaMsg, .construct 100 .SocketObject] = some final.objects := by
  obtain ⟨final, reached⟩ := reuse_runs
  have done : machine.observe actions initial reuse = [.construct 100 .CLuaMsg,
      .invoke 100 .CLuaMsg, .destroy 100 .CLuaMsg, .construct 100 .SocketObject] := by
    decide +kernel
  exact ⟨final, reached, done ▸ lifetimes reuse_named reuse_untaken reached⟩

/-- A socket class with the name of the class of messages destroys a message as a socket. -/
example : (Lifetime.machine.run (fun _ => none) (machine.observe actions initial
    [.RegisterLuaSocketObject, .new 2 [.table 1] 100, .RegisteSocketClass "CLuaMsg" true, .drop 0,
      .separate [0], .GCTM])).isNone = true := by decide +kernel

/-- A script that gets a message back after its finalizer calls a method of nothing. -/
example : (Lifetime.machine.run (fun _ => none) (machine.observe actions initial
    [.RegisterLuaSocketObject, .new 2 [.table 1] 100, .drop 0, .separate [0], .GCTM, .regain 0,
      .method 3 [.userdata 0]])).isNone = true := by decide +kernel

/-! ## What scripts hold -/

/-- **A userdata is found again.** An object that a script holds is pushed as the userdata
that the script has, however the collector has worked since. -/
theorem push_held {events : List BindingEvent} {final : Binding} {className : String} {mt ud : Nat}
    (named : machine.Meets Named initial events) (untaken : machine.Meets Untaken initial events)
    (reached : machine.run initial events = some final) (member : ud ∈ final.held)
    (owner : (final.lua.udata ud).metatable = some mt)
    (here : LuaPlus.Registered className mt final.lua) (gc : Bool) (stack : List Value) :
    ∃ lua, LuaPlus.push (final.lua.udata ud).pointer gc className { final.lua with stack } =
      .ok lua ∧ lua.stack = .userdata ud :: stack ∧ lua.udata = final.lua.udata := by
  have sound := sound_of_run named reached
  obtain ⟨made, live⟩ := live_of_run named untaken reached ud member
  obtain ⟨heap, keeps, -⟩ := sound.frame stack
  have present := (keeps.entry here _).trans (sound.paired.known made live owner)
  obtain ⟨lua, pushed, kept, top⟩ :=
    heap.push_found (keeps.registered here) (sound.paired.live ud made live) gc present
  exact ⟨lua, pushed, top, (keeps.trans kept).udata⟩

theorem push_held_reuse :
    ∃ final lua, machine.run initial reuse = some final ∧
      LuaPlus.push (final.lua.udata 1).pointer true "Chat" { final.lua with stack := [.nil] } =
        .ok lua ∧ lua.stack = [.userdata 1, .nil] := by
  have known : ((machine.run initial reuse).map fun final =>
      (final.held, (final.lua.udata 1).metatable,
        (final.lua.tables final.lua.registry).fields (.string "Chat"))) =
      some ([1], some 6, .table 6) := by decide +kernel
  obtain ⟨final, reached, same⟩ := Option.map_eq_some_iff.mp known
  obtain ⟨held, rest⟩ := Prod.mk.inj same
  obtain ⟨owner, here⟩ := Prod.mk.inj rest
  obtain ⟨lua, pushed, stack, -⟩ := @push_held reuse final "Chat" 6 1 reuse_named reuse_untaken
    reached (held ▸ List.mem_singleton_self 1) owner here true [.nil]
  exact ⟨final, lua, reached, pushed, stack⟩

/-! ## What goes through -/

/-- What an event needs: functions that there are, values that the script holds, an address
that is free, userdata that the collector may take. -/
def Offered (binding : Binding) : BindingEvent → Prop
  | .RegisterLuaSocketObject | .RegisteSocketClass _ _ | .drop _ => True
  | .new f args obj =>
      (∃ T className, binding.lua.closures[f]? = some (.new_T T className)) ∧ args ≠ [] ∧
        obj ≠ 0 ∧ binding.objects obj = none ∧ binding.Passes args
  | .method f args =>
      (∃ T method className, binding.lua.closures[f]? = some (.thunk T method className)) ∧
        binding.Passes args
  | .regain ud => ud < binding.lua.nextUdata
  | .separate us => binding.Takes us
  | .GCTM => binding.lua.tmudata ≠ []

/-- An event goes through exactly if what it needs is there. -/
theorem Sound.offered_iff (sound : binding.Sound) {event : BindingEvent}
    (named : Named binding event) :
    (∃ next, machine.step binding event = some next) ↔ binding.Offered event := by
  have step : (∃ next, machine.step binding event = some next) ↔
      ∃ done, binding.effect event = some done := by
    simp only [machine, ← Option.isSome_iff_exists, Option.isSome_map]
  rw [step]
  cases event with
  | RegisterLuaSocketObject =>
      obtain ⟨lua, ran, -⟩ := sound.register
      refine iff_of_true ⟨([], { binding with lua }), ?_⟩ trivial
      rw [Binding.effect, ran]
      rfl
  | RegisteSocketClass className published =>
      obtain ⟨lua, ran, -⟩ := sound.registeSocketClass published named
      refine iff_of_true ⟨([], { binding with lua }), ?_⟩ trivial
      rw [Binding.effect, ran]
      rfl
  | new f args obj =>
      unfold Binding.effect Offered
      constructor
      · rintro ⟨done, ran⟩
        simp only at ran
        split at ran
        · next T className code =>
            obtain ⟨after, made, -⟩ := Option.map_eq_some_iff.mp ran
            exact ⟨⟨T, className, code⟩, new_eq_some made⟩
        · cases ran
      · rintro ⟨⟨T, className, code⟩, some_, nonzero, free, passes⟩
        obtain ⟨after, made, -⟩ := sound.new code some_ nonzero free passes
        simp only [code, made]
        exact ⟨_, rfl⟩
  | method f args =>
      unfold Binding.effect Offered
      constructor
      · rintro ⟨done, ran⟩
        simp only at ran
        split at ran
        · next T method className code =>
            refine ⟨⟨T, method, className, code⟩, ?_⟩
            by_contra refused
            rw [Binding.called, if_neg refused] at ran
            cases ran
        · cases ran
      · rintro ⟨⟨T, method, className, code⟩, passes⟩
        obtain ⟨answer, called, -⟩ := sound.called code passes
        simp only [code, called]
        exact ⟨_, rfl⟩
  | drop ud => exact iff_of_true ⟨_, rfl⟩ trivial
  | regain ud =>
      unfold Binding.effect Offered
      constructor
      · rintro ⟨done, ran⟩
        exact (Option.ite_none_right_eq_some.mp ran).1
      · intro made
        simp only [if_pos made]
        exact ⟨_, rfl⟩
  | separate us =>
      unfold Binding.effect Offered
      constructor
      · rintro ⟨done, ran⟩
        by_contra refused
        simp only [if_neg refused] at ran
        cases ran
      · intro takes
        simp only [if_pos takes]
        exact ⟨_, rfl⟩
  | GCTM =>
      unfold Binding.effect Offered
      cases waits : binding.lua.tmudata with
      | nil =>
          rw [collect_of_none waits]
          refine iff_of_false ?_ (not_not_intro rfl)
          rintro ⟨done, ran⟩
          cases ran
      | cons ud waiting =>
          obtain ⟨className, after, collected, -⟩ := sound.collect waits
          exact iff_of_true ⟨_, collected⟩ (List.cons_ne_nil _ _)

/-- The finalizers that wait are called one after the other. -/
theorem Sound.collect_all (sound : binding.Sound) :
    ∃ after, machine.run binding (List.replicate binding.lua.tmudata.length .GCTM) = some after ∧
      after.Sound ∧ after.held = binding.held ∧ after.lua.tmudata = [] ∧
        after.lua.nextUdata = binding.lua.nextUdata ∧
          ∀ ud, (after.lua.udata ud).finalized = (binding.lua.udata ud).finalized := by
  generalize waits : binding.lua.tmudata = waiting
  induction waiting generalizing binding with
  | nil => exact ⟨binding, rfl, sound, rfl, waits, rfl, fun _ => rfl⟩
  | cons ud waiting ih =>
      obtain ⟨className, next, collected, sound', -, -, held, rest, made, finalized⟩ :=
        sound.collect waits
      obtain ⟨after, ran, sound'', held', none_, made', finalized'⟩ := ih sound' rest
      have stepped : machine.step binding .GCTM = some next := by
        change (binding.collect).map Prod.snd = some next
        rw [collected]
        rfl
      refine ⟨after, ?_, sound'', held'.trans held, none_, made'.trans made,
        fun other => (finalized' other).trans (finalized other)⟩
      rw [List.length_cons, List.replicate_succ, Machine.run_cons, stepped]
      exact ran

end Binding

end EngSocket
