import EngSocket.Binding.LuaPlus
import EngSocket.Foundation.Lifetime

/-!
# Scripts, the collector and the objects

`Binding.machine` is Lua with the objects of the classes that scripts are given. A
script calls the functions of a class with what it holds, the allocator places new
objects, and the collector finalizes userdata that the script has let go of, some time
after it has found them. A script may also get back what it has let go of, even after
that. What is done to objects on the way is not checked: `EngSocket.Binding.actions`
tells it.

The collector works between the calls of a script only, and no other library has names in
the registry. A call of `new` without an argument is refused, as `lua_remove` is then
undefined.
-/

namespace EngSocket

open Foundation Foundation.Lifetime
open Lua (Value Error State)

/-- The objects that exist, and the userdata that the script can reach. -/
structure Binding where
  lua : State Closure
  objects : Nat → Option ScriptClass
  held : List Nat

inductive BindingEvent
  | RegisterLuaSocketObject
  /-- Of the module `eng`; whether the methods can be published. -/
  | RegisteSocketClass (className : String) (published : Bool)
  /-- The script calls the closure of a `new_T`. The allocator gives the address. -/
  | new (f : Nat) (args : List Value) (obj : Nat)
  /-- The script calls the closure of a `thunk`. -/
  | method (f : Nat) (args : List Value)
  /-- The script lets go of a userdata. -/
  | drop (ud : Nat)
  /-- The script gets a userdata back, from a weak table or in a finalizer of its own.
  The keys of a weak table stay in it until their finalizers have run. -/
  | regain (ud : Nat)
  /-- The collector finds that these are out of reach. -/
  | separate (us : List Nat)
  /-- The collector calls a finalizer. -/
  | GCTM

/-- Whether the collector does it. -/
def BindingEvent.ofCollector : BindingEvent → Bool
  | .separate _ | .GCTM => true
  | _ => false

namespace Binding

def initial : Binding where
  lua := .new
  objects := fun _ => none
  held := []

/-- A script passes userdata that it holds. -/
def Passes (binding : Binding) (args : List Value) : Prop :=
  ∀ ud ∈ args.filterMap Value.udata, ud ∈ binding.held

instance (binding : Binding) (args : List Value) : Decidable (binding.Passes args) :=
  inferInstanceAs (Decidable (∀ ud ∈ args.filterMap Value.udata, ud ∈ binding.held))

/-- The stack of a function that is called. -/
def frame (args : List Value) (binding : Binding) : State Closure :=
  { binding.lua with stack := args.reverse }

def register (T : ScriptClass) (binding : Binding) : Option Binding := do
  let lua ← (LuaPlus.Register T (binding.frame [])).toOption
  return { binding with lua }

def registeSocketClass (className : String) (published : Bool) (binding : Binding) :
    Option Binding := do
  let lua ← (LuaPlus.RegisteSocketClassL .SocketObject className published
    (binding.frame [.string className])).toOption
  return { binding with lua }

/-- `new T(className)` and what it returns to the script. -/
def new (T : ScriptClass) (className : String) (args : List Value) (obj : Nat)
    (binding : Binding) : Option Binding :=
  if obj ≠ 0 ∧ binding.objects obj = none ∧ binding.Passes args then do
    let lua ← (LuaPlus.new_T obj className (binding.frame args)).toOption
    match lua.stack with
    | .userdata ud :: _ =>
        return { lua
                 objects := Function.update binding.objects obj (some T)
                 held := ud :: binding.held }
    | _ => none
  else none

/-- The object that a method is called on, if the call gets that far. -/
def called (className : String) (args : List Value) (binding : Binding) : Option (Option Nat) :=
  if binding.Passes args then
    match LuaPlus.thunk className (binding.frame args) with
    | .ok (obj, _) => some (some obj)
    | .error (.raised _) => some none
    | .error .undefined => none
  else none

/-- The collector may take userdata that nothing refers to and that it has not taken yet. -/
def Takes (binding : Binding) (us : List Nat) : Prop :=
  us.Nodup ∧ ∀ ud ∈ us, ud < binding.lua.nextUdata ∧ (binding.lua.udata ud).finalized = false ∧
    ud ∉ binding.held

instance (binding : Binding) (us : List Nat) : Decidable (binding.Takes us) :=
  inferInstanceAs (Decidable (us.Nodup ∧ ∀ ud ∈ us, _ ∧ _ ∧ _))

/-- The object that `gc_T` deletes is gone; the null pointer if there is none. -/
def finalize (ud : Nat) (lua : State Closure) (binding : Binding) : Option (Nat × Binding) := do
  let (obj, lua) ← (LuaPlus.gc_T { lua with stack := [.userdata ud] }).toOption
  if obj = 0 then return (0, { binding with lua })
  else return (obj, { binding with lua, objects := Function.update binding.objects obj none })

/-- The finalizer of the first userdata that waits, with what it does. -/
def collect (binding : Binding) :
    Option (List (Action Nat ScriptClass) × Binding) := do
  let (ud, finalizer, lua) ← binding.lua.finalizer
  match finalizer with
  | .function f =>
      match lua.closures[f]? with
      | some (.gc_T T) => do
          let (obj, after) ← binding.finalize ud lua
          return (if obj = 0 then [] else [.destroy obj T], after)
      | _ => none
  | .nil => return ([], { binding with lua })
  | _ => none

/-- What an event does to objects, and what it leaves. -/
def effect (binding : Binding) :
    BindingEvent → Option (List (Action Nat ScriptClass) × Binding)
  | .RegisterLuaSocketObject => (binding.register .CLuaMsg).map ([], ·)
  | .RegisteSocketClass className published =>
      (binding.registeSocketClass className published).map ([], ·)
  | .new f args obj =>
      match binding.lua.closures[f]? with
      | some (.new_T T className) =>
          (binding.new T className args obj).map ([.construct obj T], ·)
      | _ => none
  | .method f args =>
      match binding.lua.closures[f]? with
      | some (.thunk T _ className) =>
          (binding.called className args).map fun obj =>
            (obj.toList.map (.invoke · T), binding)
      | _ => none
  | .drop ud => some ([], { binding with held := binding.held.filter (· ≠ ud) })
  | .regain ud =>
      if ud < binding.lua.nextUdata then some ([], { binding with held := ud :: binding.held })
      else none
  | .separate us =>
      if binding.Takes us then some ([], { binding with lua := binding.lua.separate us }) else none
  | .GCTM => binding.collect

def machine : Machine Binding BindingEvent where
  step binding event := (binding.effect event).map Prod.snd

/-- What an event does to objects. -/
def actions (binding : Binding) (event : BindingEvent) : List (Action Nat ScriptClass) :=
  ((binding.effect event).map Prod.fst).getD []

end Binding

end EngSocket
