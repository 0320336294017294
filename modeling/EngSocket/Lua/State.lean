import EngSocket.Foundation.Machine
import Mathlib.Logic.Function.Basic

/-!
# The stack, the tables and the userdata of Lua

What a C function of Lua 5.1 can do through the API: the values on its part of the
stack, the tables and the userdata they refer to, and the part of the collector that
takes userdata from weak tables and calls their finalizers. The functions have the
names of the API without their prefix. A table that a script has given a function
for `__index` or `__newindex` is not followed, and the basic types have no metatables.
-/

namespace Lua

/-- Strings are compared by what they are, tables, userdata and functions by the
references to them. -/
inductive Value
  | nil
  | boolean (b : Bool)
  | string (s : String)
  | lightuserdata (p : Nat)
  | table (h : Nat)
  | userdata (u : Nat)
  | function (f : Nat)
  deriving DecidableEq, Repr

/-- The userdata that a value refers to. -/
def Value.udata : Value → Option Nat
  | .userdata u => some u
  | _ => none

/-- The value of a key is `nil` if the key is absent. -/
structure Table where
  fields : Value → Value
  metatable : Option Nat

def Table.empty : Table where
  fields := fun _ => .nil
  metatable := none

def Table.set (key value : Value) (table : Table) : Table :=
  { table with fields := Function.update table.fields key value }

/-- A userdata that holds one pointer. -/
structure Udata where
  pointer : Nat
  metatable : Option Nat
  finalized : Bool

inductive Error
  /-- `lua_error`, which the caller can catch. -/
  | raised (message : String)
  /-- The API leaves open what happens, or another function is called. -/
  | undefined
  deriving DecidableEq, Repr

/-- A state, with the stack of the function that runs, the last value first. A C
function is given with its upvalues. -/
@[ext] structure State (Code : Type) where
  stack : List Value
  tables : Nat → Table
  nextTable : Nat
  udata : Nat → Udata
  nextUdata : Nat
  closures : List Code
  /-- The table at `LUA_REGISTRYINDEX`. -/
  registry : Nat
  /-- The userdata whose finalizers are to be called, the first one first. -/
  tmudata : List Nat

namespace State

variable {Code : Type} (L : State Code)

/-- A state with an empty registry. -/
def new : State Code where
  stack := []
  tables := fun _ => .empty
  nextTable := 1
  udata := fun _ => { pointer := 0, metatable := none, finalized := false }
  nextUdata := 0
  closures := []
  registry := 0
  tmudata := []

/-! ## Indices -/

def LUA_REGISTRYINDEX : Int := -10000

/-- How far from the top an index is. -/
def offset : Int → Option Nat
  | .ofNat 0 => none
  | .ofNat (n + 1) => if n < L.stack.length then some (L.stack.length - (n + 1)) else none
  | .negSucc n => if n < L.stack.length then some n else none

/-- The value at an index, which is `nil` above the top. -/
def index2adr (idx : Int) : Except Error Value :=
  if idx = LUA_REGISTRYINDEX then .ok (.table L.registry)
  else
    match L.offset idx with
    | some place => .ok (L.stack.getD place .nil)
    | none => if 0 < idx then .ok .nil else .error .undefined

def push (value : Value) : State Code := { L with stack := value :: L.stack }

def gettop : Nat := L.stack.length

def pop (n : Nat) : Except Error (State Code) :=
  if n ≤ L.stack.length then .ok { L with stack := L.stack.drop n } else .error .undefined

/-- `lua_settop`, which leaves a number of values. -/
def settop (top : Nat) : State Code :=
  { L with
    stack := List.replicate (top - L.stack.length) .nil ++ L.stack.drop (L.stack.length - top) }

def pushvalue (idx : Int) : Except Error (State Code) := do
  let value ← L.index2adr idx
  return L.push value

def remove (idx : Int) : Except Error (State Code) :=
  match L.offset idx with
  | some place => .ok { L with stack := L.stack.eraseIdx place }
  | none => .error .undefined

def insert (idx : Int) : Except Error (State Code) :=
  match L.offset idx, L.stack with
  | some place, top :: rest => .ok { L with stack := rest.insertIdx place top }
  | _, _ => .error .undefined

def replace (idx : Int) : Except Error (State Code) :=
  match L.offset idx, L.stack with
  | some place, top :: _ => .ok { L with stack := (L.stack.set place top).tail }
  | _, _ => .error .undefined

/-- `lua_isnil` of the value on top. -/
def isnilTop : Bool := L.stack.head? == some .nil

/-! ## Tables -/

def setTable (h : Nat) (table : Table) : State Code :=
  { L with tables := Function.update L.tables h table }

def setUdata (u : Nat) (udata : Udata) : State Code :=
  { L with udata := Function.update L.udata u udata }

/-- A field of a metatable. -/
def metafield (metatable : Option Nat) (event : String) : Value :=
  match metatable with
  | some h => (L.tables h).fields (.string event)
  | none => .nil

/-- The metatable of a value. Tables and userdata have metatables of their own. -/
def metatableOf : Value → Option Nat
  | .table h => (L.tables h).metatable
  | .userdata u => (L.udata u).metatable
  | _ => none

/-- `luaV_gettable`, with as many turns as are left. -/
def index : Nat → Value → Value → Except Error Value
  | 0, _, _ => .error (.raised "loop in gettable")
  | turns + 1, subject, key =>
      let handler := L.metafield (L.metatableOf subject) "__index"
      let value :=
        match subject with
        | .table h => (L.tables h).fields key
        | _ => .nil
      if value ≠ .nil then .ok value
      else
        match handler, subject with
        | .nil, .table _ => .ok .nil
        | .nil, _ => .error (.raised "attempt to index a value")
        | .function _, _ => .error .undefined
        | handler, _ => index turns handler key

/-- `luaV_settable`, with as many turns as are left. -/
def newindex : Nat → Value → Value → Value → Except Error (State Code)
  | 0, _, _, _ => .error (.raised "loop in settable")
  | turns + 1, subject, key, value =>
      let handler := L.metafield (L.metatableOf subject) "__newindex"
      match subject, handler with
      | .table h, handler =>
          if (L.tables h).fields key ≠ .nil ∨ handler = .nil then
            .ok (L.setTable h ((L.tables h).set key value))
          else
            match handler with
            | .function _ => .error .undefined
            | handler => newindex turns handler key value
      | _, .nil => .error (.raised "attempt to index a value")
      | _, .function _ => .error .undefined
      | _, handler => newindex turns handler key value

def MAXTAGLOOP : Nat := 100

def gettable (idx : Int) : Except Error (State Code) := do
  let subject ← L.index2adr idx
  match L.stack with
  | key :: rest => do
      let value ← L.index MAXTAGLOOP subject key
      return { L with stack := value :: rest }
  | [] => .error .undefined

def getfield (idx : Int) (k : String) : Except Error (State Code) := do
  let subject ← L.index2adr idx
  let value ← L.index MAXTAGLOOP subject (.string k)
  return L.push value

/-- `lua_rawget`, of a table. -/
def rawget (idx : Int) : Except Error (State Code) := do
  let subject ← L.index2adr idx
  match subject, L.stack with
  | .table h, key :: rest => return { L with stack := (L.tables h).fields key :: rest }
  | _, _ => .error .undefined

def settable (idx : Int) : Except Error (State Code) := do
  let subject ← L.index2adr idx
  match L.stack with
  | value :: key :: rest => do
      let L ← L.newindex MAXTAGLOOP subject key value
      return { L with stack := rest }
  | _ => .error .undefined

def setfield (idx : Int) (k : String) : Except Error (State Code) := do
  let subject ← L.index2adr idx
  match L.stack with
  | value :: rest => do
      let L ← L.newindex MAXTAGLOOP subject (.string k) value
      return { L with stack := rest }
  | _ => .error .undefined

def newtable : State Code :=
  { L with
    tables := Function.update L.tables L.nextTable .empty
    nextTable := L.nextTable + 1
    stack := .table L.nextTable :: L.stack }

/-- `lua_setmetatable`, of a table or a userdata. -/
def setmetatable (idx : Int) : Except Error (State Code) := do
  let subject ← L.index2adr idx
  match subject, L.stack with
  | .table h, .table mt :: rest =>
      return { L.setTable h { L.tables h with metatable := some mt } with stack := rest }
  | .userdata u, .table mt :: rest =>
      return { L.setUdata u { L.udata u with metatable := some mt } with stack := rest }
  | _, _ => .error .undefined

/-- `lua_getmetatable`: whether there is one, which is pushed then. -/
def getmetatable (idx : Int) : Except Error (Bool × State Code) := do
  let subject ← L.index2adr idx
  match L.metatableOf subject with
  | some mt => return (true, L.push (.table mt))
  | none => return (false, L)

/-! ## Functions and userdata -/

def pushcclosure (code : Code) : State Code :=
  { L with
    closures := L.closures ++ [code]
    stack := .function L.closures.length :: L.stack }

/-- `lua_newuserdata`, with the reference to what is pushed. -/
def newuserdata : Nat × State Code :=
  (L.nextUdata,
    { L with
      udata := Function.update L.udata L.nextUdata
        { pointer := 0, metatable := none, finalized := false }
      nextUdata := L.nextUdata + 1
      stack := .userdata L.nextUdata :: L.stack })

/-- `lua_touserdata`: the userdata at an index, but not a light one. -/
def touserdata (idx : Int) : Except Error (Option Nat) := do
  let value ← L.index2adr idx
  match value with
  | .userdata u => return some u
  | _ => return none

/-! ## The auxiliary library -/

/-- `luaL_newmetatable`. -/
def newmetatable (tname : String) : Except Error (State Code) := do
  let L ← L.getfield LUA_REGISTRYINDEX tname
  if L.isnilTop then do
    let L ← L.pop 1
    let L := L.newtable
    let L ← L.pushvalue (-1)
    L.setfield LUA_REGISTRYINDEX tname
  else return L

/-- `luaL_getmetafield`: whether there is one, which is pushed then. -/
def getmetafield (idx : Int) (event : String) : Except Error (Bool × State Code) := do
  let (found, L) ← L.getmetatable idx
  if found then do
    let L := L.push (.string event)
    let L ← L.rawget (-2)
    if L.isnilTop then do
      let L ← L.pop 2
      return (false, L)
    else do
      let L ← L.remove (-2)
      return (true, L)
  else return (false, L)

/-- `luaL_typename`. -/
def typename (idx : Int) : String :=
  match L.index2adr idx with
  | .ok .nil => if L.gettop < idx then "no value" else "nil"
  | .ok (.boolean _) => "boolean"
  | .ok (.string _) => "string"
  | .ok (.table _) => "table"
  | .ok (.function _) => "function"
  | .ok (.lightuserdata _) | .ok (.userdata _) => "userdata"
  | .error _ => "no value"

/-- `luaL_checkudata`. -/
def checkudata (ud : Int) (tname : String) : Except Error (Nat × State Code) := do
  let typerror := tname ++ " expected, got " ++ L.typename ud
  match ← L.touserdata ud with
  | some u => do
      let (found, L) ← L.getmetatable ud
      if found then do
        let L ← L.getfield LUA_REGISTRYINDEX tname
        let correct ← L.index2adr (-1)
        let actual ← L.index2adr (-2)
        if correct = actual then do
          let L ← L.pop 2
          return (u, L)
        else .error (.raised typerror)
      else .error (.raised typerror)
  | none => .error (.raised typerror)

/-! ## The collector -/

/-- `traversetable` finds the table to be weak. -/
def isWeak (h : Nat) : Bool :=
  match L.metafield (L.tables h).metatable "__mode" with
  | .string mode => mode.toList.contains 'k' || mode.toList.contains 'v'
  | _ => false

/-- `cleartable`, after userdata have been marked as finalized. -/
def cleartable : State Code :=
  { L with
    tables := fun h =>
      if L.isWeak h then
        { L.tables h with
          fields := fun key =>
            match (L.tables h).fields key with
            | .userdata u => if (L.udata u).finalized then .nil else .userdata u
            | value => value }
      else L.tables h }

/-- `luaC_separateudata` for userdata that nothing refers to, and `cleartable`. -/
def separate (us : List Nat) : State Code :=
  cleartable { L with
    udata := fun u => { L.udata u with finalized := (L.udata u).finalized || us.contains u }
    tmudata := L.tmudata ++
      us.filter fun u => L.metafield (L.udata u).metatable "__gc" ≠ .nil }

/-- What `GCTM` is about to call: the first userdata that waits, and its finalizer. -/
def finalizer : Option (Nat × Value × State Code) :=
  match L.tmudata with
  | u :: waiting =>
      some (u, L.metafield (L.udata u).metatable "__gc", { L with tmudata := waiting })
  | [] => none

end State

end Lua
