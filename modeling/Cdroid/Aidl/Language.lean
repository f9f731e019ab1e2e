import Cdroid.Runtime.Values

/-! The interface description language of the `aidl` tool: what its lexer and its grammar
make of a file. Comments, line numbers and the texts of the error reports are left out. -/

namespace Cdroid.Aidl
open Cdroid.Runtime

def byte (c : Char) : UInt8 := c.toNat.toUInt8

/-! ## Tokens -/

/-- The bytes as a string: up to the first zero. -/
def cString (s : String8) : String8 := s.takeWhile (· ≠ 0)

/-- `isspace` -/
def isspace (b : UInt8) : Bool := b = 32 || (9 ≤ b && b ≤ 13)

def letter (b : UInt8) : Bool :=
  b = byte '_' || (byte 'a' ≤ b && b ≤ byte 'z') || (byte 'A' ≤ b && b ≤ byte 'Z')

def digit (b : UInt8) : Bool := byte '0' ≤ b && b ≤ byte '9'

/-- The lexer's `whitespace`. -/
def whitespace (b : UInt8) : Bool := b = 32 || b = 9 || b = 10 || b = 13

/-- What the rules before the last one take, or what is no text at all. -/
def punctuation (b : UInt8) : Bool := b = 0 || (ascii ";\x7b\x7d(),=").any (b = ·)

/-- The text of an `IDENTIFIER`. Its last rule makes one of a single character that no
other rule takes; the empty one that it makes of a zero byte is left out. -/
def identifier : String8 → Bool
  | [] => false
  | b :: s => (letter b && s.all fun c => letter c || digit c || c = byte '.') ||
    (s.isEmpty && !whitespace b && !punctuation b && !digit b)

/-- What `do_package_statement` can cut out of a `PACKAGE`. -/
def packageText (s : String8) : Bool := s.all fun b => !isspace b && b ≠ byte ';' && b ≠ 0

/-- `package2namespace` -/
def package2namespace (package : String8) : String8 :=
  package.flatMap fun c => if c = byte '.' then ascii "::" else [c]

/-! ## Documents -/

inductive Direction
  | in_
  | out
  | inout
  deriving DecidableEq

def IN_PARAMETER : Nat := 1
def OUT_PARAMETER : Nat := 2
def INOUT_PARAMETER : Nat := 3

/-- `convert_direction`; no direction is a null `data`. -/
def convertDirection : Option Direction → Nat
  | none => IN_PARAMETER
  | some .in_ => IN_PARAMETER
  | some .out => OUT_PARAMETER
  | some .inout => INOUT_PARAMETER

/-- `type_type`: the text of the type and how many brackets follow it. -/
structure TypeText where
  data : String8
  dimension : Nat
  deriving DecidableEq

/-- `arg_type` -/
structure Arg where
  direction : Option Direction
  type : TypeText
  name : String8
  deriving DecidableEq

/-- `method_type` -/
structure Method where
  type : TypeText
  oneway : Bool
  name : String8
  args : List Arg
  deriving DecidableEq

def PARCELABLE_DATA : Nat := 1
def RPC_DATA : Nat := 2

/-- `user_data_type` -/
structure UserData where
  package : Option String8
  name : String8
  flattening_methods : Nat
  deriving DecidableEq

inductive InterfaceKind
  | binder
  | rpc
  deriving DecidableEq

/-- `interface_type` with its `item_type`. -/
structure Interface where
  kind : InterfaceKind
  oneway : Bool
  package : Option String8
  name : String8
  interface_items : List Method
  deriving DecidableEq

/-- `document_item_type` -/
inductive DocumentItem
  | userData (p : UserData)
  | interface (c : Interface)
  deriving DecidableEq

namespace DocumentItem

def package : DocumentItem → Option String8
  | .userData p => p.package
  | .interface c => c.package

def name : DocumentItem → String8
  | .userData p => p.name
  | .interface c => c.name

/-- `parcelable_decl` and `interface_header`: the flattening methods of a `parcelable`
or of a `flattenable`; an `rpc` is never `oneway`. -/
def declared : DocumentItem → Bool
  | .userData p => p.flattening_methods = PARCELABLE_DATA ||
      p.flattening_methods = PARCELABLE_DATA ||| RPC_DATA
  | .interface c => c.kind = .binder || !c.oneway

/-- What the grammar accepts. -/
def parsed (d : DocumentItem) : Bool :=
  d.declared && identifier d.name && d.package.all packageText

end DocumentItem

/-- A document that was parsed without an error. -/
structure Document where
  items : List DocumentItem
  parsed : ∀ d ∈ items, d.parsed

end Cdroid.Aidl
