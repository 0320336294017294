import EngSocket.Lua.State

/-!
# Classes for scripts

`LuaPlus<T>` gives scripts the class `T` under a name of their choice. The metatable of
a name is in the registry. In it are the finalizer and, under `userdata`, a table with
weak values that leads from an object to its userdata. An object is made by `new_T`, is
called through `thunk` and is destroyed by `gc_T`.

The functions below do to the stack of Lua what the code does. That the table of the
methods is published among the globals is left out: no function of the class reads it.
-/

namespace EngSocket

open Lua (Value Error State)

/-- The classes that scripts are given. -/
inductive ScriptClass
  | CLuaMsg
  | SocketObject
  deriving DecidableEq, Repr

/-- `T::functions`. -/
def ScriptClass.functions : ScriptClass → List String
  | .CLuaMsg =>
      ["CreateNewMessage", "LoadMsg", "BeginForWrite", "EndForWrite", "SendMsg", "GetSize",
        "ReadRaw", "WriteRaw"]
  | .SocketObject =>
      ["GetName", "HasPendingMsg", "CloseConnection", "ConnectToServer", "KeepAlived", "InitPike",
        "ReConnectToServer", "UpdateNetMsg"]

/-- `T::className`. -/
def ScriptClass.className : ScriptClass → String
  | .CLuaMsg => "CLuaMsg"
  | .SocketObject => "SocketObject"

/-- The C functions of `LuaPlus<T>` with their upvalues. -/
inductive Closure
  | new_T (T : ScriptClass) (className : String)
  | gc_T (T : ScriptClass)
  | tostring_T (T : ScriptClass) (className : String)
  | thunk (T : ScriptClass) (method className : String)
  deriving DecidableEq, Repr

namespace LuaPlus

/-- A table that is its own metatable. -/
def weaktable (mode : String) (L : State Closure) : Except Error (State Closure) := do
  let L := L.newtable
  let L ← L.pushvalue (-1)
  let L ← L.setmetatable (-2)
  let L := L.push (.string "__mode")
  let L := L.push (.string mode)
  L.settable (-3)

def subtable (tindex : Int) (name mode : String) (L : State Closure) :
    Except Error (State Closure) := do
  let L := L.push (.string name)
  let L ← L.gettable tindex
  if L.isnilTop then do
    let L ← L.pop 1
    let L ← weaktable mode L
    let L := L.push (.string name)
    let L ← L.pushvalue (-2)
    L.settable tindex
  else return L

/-- The userdata is given only if it is new. -/
def pushuserdata (key : Nat) (L : State Closure) : Except Error (Option Nat × State Closure) := do
  let L := L.push (.lightuserdata key)
  let L ← L.gettable (-2)
  if L.isnilTop then do
    let L ← L.pop 1
    let (ud, L) := L.newuserdata
    let L := L.push (.lightuserdata key)
    let L ← L.pushvalue (-2)
    let L ← L.settable (-4)
    return (some ud, L)
  else return (none, L)

/-- `mt["do not trash"][ud] = true`, for the userdata on top. -/
def doNotTrash (mt : Int) (L : State Closure) : Except Error (State Closure) := do
  let L ← subtable mt "do not trash" "k" L
  let L ← L.pushvalue (-2)
  let L := L.push (.boolean true)
  let L ← L.settable (-3)
  L.pop 1

/-- What `push` does to a userdata that is new. -/
def attach (ud obj : Nat) (gc : Bool) (mt : Int) (L : State Closure) :
    Except Error (State Closure) := do
  let L := L.setUdata ud { L.udata ud with pointer := obj }
  let L ← L.pushvalue mt
  let L ← L.setmetatable (-2)
  if gc then return L else doNotTrash mt L

def push (obj : Nat) (gc : Bool) (className : String) (L : State Closure) :
    Except Error (State Closure) :=
  if obj = 0 then return L.push .nil
  else do
    let L ← L.getfield State.LUA_REGISTRYINDEX className
    if L.isnilTop then .error (.raised (className ++ " missing metatable"))
    else do
      let mt := L.gettop
      let L ← subtable mt "userdata" "v" L
      let (ud, L) ← pushuserdata obj L
      let L ←
        match ud with
        | some ud => attach ud obj gc mt L
        | none => pure L
      let L ← L.replace mt
      return L.settop mt

/-- The object of the userdata, once that is known to be of the class. -/
def check (narg : Int) (className : String) (L : State Closure) :
    Except Error (Nat × State Closure) := do
  let (ud, L) ← L.checkudata narg className
  return ((L.udata ud).pointer, L)

/-- A value on top of the stack becomes a field. -/
def set (table_index : Int) (key : String) (L : State Closure) : Except Error (State Closure) := do
  let L := L.push (.string key)
  let L ← L.insert (-2)
  L.settable table_index

def setMetatable (T : ScriptClass) (className : String) (methods metatable : Int)
    (L : State Closure) : Except Error (State Closure) := do
  -- hides the metatable from scripts, which are given the methods in its place
  let L ← L.pushvalue methods
  let L ← set metatable "__metatable" L
  let L ← L.pushvalue methods
  let L ← set metatable "__index" L
  let L := L.pushcclosure (.tostring_T T className)
  let L ← set metatable "__tostring" L
  let L := L.pushcclosure (.gc_T T)
  set metatable "__gc" L

def setNew (T : ScriptClass) (className : String) (methods : Int) (L : State Closure) :
    Except Error (State Closure) := do
  let L := L.newtable
  let L := L.pushcclosure (.new_T T className)
  let L ← L.pushvalue (-1)
  let L ← set methods "new" L
  let L ← set (-3) "__call" L
  L.setmetatable methods

def setMethods (T : ScriptClass) (className : String) (methods : Int) :
    List String → State Closure → Except Error (State Closure)
  | [], L => return L
  | name :: names, L => do
      let L := L.push (.string name)
      let L := L.pushcclosure (.thunk T name className)
      let L ← L.settable methods
      setMethods T className methods names L

/-- What `Register` and `RegisteSocketClassL` do once the methods are published. -/
def fill (T : ScriptClass) (className : String) (methods metatable : Int) (L : State Closure) :
    Except Error (State Closure) := do
  let L ← setMetatable T className methods metatable L
  let L ← setNew T className methods L
  let L ← setMethods T className methods T.functions L
  L.pop 2

/-- Stops in between if the parent, among the globals, is no table. -/
def RegisteSocketClassL (T : ScriptClass) (className : String) (published : Bool)
    (L : State Closure) : Except Error (State Closure) := do
  let L := L.newtable
  let methods := L.gettop
  let L ← L.newmetatable className
  let metatable := L.gettop
  if published then fill T className methods metatable L else return L

def Register (T : ScriptClass) (L : State Closure) : Except Error (State Closure) := do
  let L := L.newtable
  let methods := L.gettop
  let L ← L.newmetatable T.className
  let metatable := L.gettop
  fill T T.className methods metatable L

/-- `new T(className)` has made the object. -/
def new_T (obj : Nat) (className : String) (L : State Closure) : Except Error (State Closure) := do
  let L ← L.remove 1
  push obj true className L

/-- The object that the method is called on. -/
def thunk (className : String) (L : State Closure) : Except Error (Nat × State Closure) := do
  let (obj, L) ← check 1 className L
  let L ← L.remove 1
  return (obj, L)

/-- The object that is deleted; the null pointer if none is. -/
def gc_T (L : State Closure) : Except Error (Nat × State Closure) := do
  let (found, L) ← L.getmetafield 1 "do not trash"
  let (kept, L) ←
    if found then do
      let L ← L.pushvalue 1
      let L ← L.gettable (-2)
      pure (!L.isnilTop, L)
    else pure (false, L)
  if kept then return (0, L)
  match ← L.touserdata 1 with
  | some ud =>
      let obj := (L.udata ud).pointer
      if obj = 0 then return (0, L)
      return (obj, L.setUdata ud { L.udata ud with pointer := 0 })
  | none => return (0, L)

end LuaPlus

end EngSocket
