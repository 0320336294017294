import EngSocket.Binding.Lifetimes
import EngSocket.Script.Naming

/-!
# The sockets of scripts

`s_objList` is kept by the constructor and the destructor of `SocketObject`, which `new_T`
and `gc_T` call. A program that goes through what the scripts and the collector do to
socket objects therefore has in `s_objList` the objects that exist
(`EngSocket.Binding.s_objList_iff`).
-/

namespace EngSocket

open Foundation Foundation.Lifetime

namespace Program

/-- The objects that an event makes or destroys. -/
def lifetime : ProgramEvent → List (Action Nat ScriptClass)
  | .newSocket address _ => [.construct address .SocketObject]
  | .gcSocket address => [.destroy address .SocketObject]
  | _ => []

/-- The objects in `s_objList`. -/
def sockets (program : Program) : Nat → Option ScriptClass :=
  fun address => (program.nameOf address).map fun _ => .SocketObject

variable {program next : Program}

/-- The objects that exist are those in `s_objList`. -/
theorem sockets_eq_some {address : Nat} :
    program.sockets address = some .SocketObject ↔
      ∃ object, program.s_objList.get address = some object := by
  rw [sockets, nameOf, Option.map_map, Option.map_eq_some_iff]
  exact ⟨fun found => found.imp fun _ both => both.1, fun found => found.imp fun _ => (⟨·, rfl⟩)⟩

/-- Programs with the same names have the same objects. -/
theorem sockets_congr (same : ∀ address, next.nameOf address = program.nameOf address) :
    next.sockets = program.sockets := by
  funext address
  rw [sockets, same, sockets]

/-- A call on a manager makes and destroys no objects. -/
theorem lifetime_of_call {event : ProgramEvent} {manager : Nat} {world after : World}
    (called : program.callOf event manager world = some after) : lifetime event = [] := by
  cases event with
  | newSocket _ _ | gcSocket _ => cases called
  | _ => rfl

/-- The objects of a program live as its events say. -/
theorem lives : Simulation machine Lifetime.machine (fun _ _ => True)
    (fun _ event => lifetime event) fun program objects => objects = program.sockets := by
  rintro program _ event next - rfl stepped
  refine ⟨next.sockets, ?_, rfl⟩
  change Lifetime.machine.run program.sockets (lifetime event) = some next.sockets
  cases step_spec stepped with
  | @newSocket address instClassName idle fresh =>
      have free : program.sockets address = none := by
        rw [sockets, nameOf, fresh]
        rfl
      have made : sockets { program with
          s_objList := program.s_objList.put address (SocketObject.new instClassName) } =
            Function.update program.sockets address (some .SocketObject) := by
        funext other
        by_cases same : other = address
        · subst same
          rw [Function.update_self, sockets, nameOf, OrderedMap.get_put_self]
          rfl
        · rw [Function.update_of_ne same, sockets, nameOf_congr (OrderedMap.get_put_of_ne same _ _),
            sockets]
      rw [made]
      unfold lifetime
      rw [Machine.run_cons]
      simp only [Lifetime.machine, if_pos free, Option.bind_some, Machine.run_nil]
  | @gcSocket address object world idle here closes =>
      have exists_ : program.sockets address = some .SocketObject := sockets_eq_some.mpr ⟨_, here⟩
      have gone : sockets { world, s_objList := program.s_objList.erase address } =
          Function.update program.sockets address none := by
        funext other
        by_cases same : other = address
        · subst same
          rw [Function.update_self, sockets, nameOf, OrderedMap.get_erase_self]
          rfl
        · have kept : nameOf other { world, s_objList := program.s_objList.erase address } =
              program.nameOf other := nameOf_congr (OrderedMap.get_erase_of_ne same _)
          rw [Function.update_of_ne same, sockets, kept, sockets]
      rw [gone]
      unfold lifetime
      rw [Machine.run_cons]
      simp only [Lifetime.machine, if_pos exists_, Option.bind_some, Machine.run_nil]
  | onSocket idle for_ called =>
      obtain ⟨manager, middle, connects, world, done, -⟩ := onSocket_cases called
      rw [lifetime_of_call done, sockets_congr (nameOf_onSocket called)]
      rfl
  | luaMsg idle own done => rfl
  | reply waits done => rfl

end Program

namespace Binding

/-- **`s_objList` holds the sockets that exist.** If a program has gone through what a run
makes and destroys of socket objects, `s_objList` holds an object if and only if the object
exists. -/
theorem s_objList_iff {scripts : List BindingEvent} {final : Binding}
    {events : List ProgramEvent} {program : Program} (grants : Nat → Bool)
    (junk : Nat → Memory UInt8) (named : machine.Meets Named initial scripts)
    (reached : machine.run initial scripts = some final)
    (ran : Program.machine.run (Program.initial grants junk) events = some program)
    (same : events.flatMap Program.lifetime =
      (machine.observe actions initial scripts).filter (Action.changes .SocketObject))
    (address : Nat) :
    (∃ object, program.s_objList.get address = some object) ↔
      final.objects address = some .SocketObject := by
  have lived := @run_only _ _ _ _ _ _ ScriptClass.SocketObject _ (changes named reached)
  rw [filter_alters_changes] at lived
  obtain ⟨objects, shown, rfl⟩ := Program.lives.run
    (Machine.Meets.of_forall (fun _ _ => trivial) events _) ran rfl
  have emitted : Program.machine.observe (fun _ event => Program.lifetime event)
      (Program.initial grants junk) events = events.flatMap Program.lifetime :=
    (Machine.watch_emit Program.lifetime ran).trans (List.nil_append _)
  have start : (Program.initial grants junk).sockets = only .SocketObject fun _ => none := rfl
  rw [emitted, same, start] at shown
  have equal : program.sockets = only .SocketObject final.objects :=
    Option.some.inj (shown.symm.trans lived)
  rw [← Program.sockets_eq_some, equal, only]
  by_cases exists_ : final.objects address = some .SocketObject
  · rw [if_pos exists_]
    exact iff_of_true rfl exists_
  · rw [if_neg exists_]
    exact iff_of_false (Option.some_ne_none _).symm exists_

theorem s_objList_iff_reuse :
    ∃ final program, machine.run initial reuse = some final ∧
      Program.machine.run (Program.initial (fun _ => true) fun _ _ => 0)
        [.newSocket 100 "Chat"] = some program ∧
          ((∃ object, program.s_objList.get 100 = some object) ↔
            final.objects 100 = some .SocketObject) := by
  obtain ⟨final, reached⟩ := reuse_runs
  have runs : (Program.machine.run (Program.initial (fun _ => true) fun _ _ => 0)
      [.newSocket 100 "Chat"]).isSome = true := by decide +kernel
  obtain ⟨program, ran⟩ := Option.isSome_iff_exists.mp runs
  have same : [ProgramEvent.newSocket 100 "Chat"].flatMap Program.lifetime =
      (machine.observe actions initial reuse).filter (Action.changes .SocketObject) := by
    decide +kernel
  exact ⟨final, program, reached, ran,
    s_objList_iff _ _ reuse_named reached ran same 100⟩

end Binding

end EngSocket
