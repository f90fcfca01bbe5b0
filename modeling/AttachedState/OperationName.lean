/-!
Recognising operations by name.  An operation called `name` is declared by a function of that very
name, or, when it is overloaded, by functions `name.suffix`.  Names are compared as UTF-8 bytes.
-/

namespace AttachedState.OperationName

def bytes (name : String) : List UInt8 := name.toUTF8.data.toList

def dot : UInt8 := 0x2E

def declares (function name : String) : Bool := bytes function == bytes name

-- An overload is longer than `name`, begins with it, and has a dot as the byte that follows.  The
-- suffix after the dot may be empty.
def overloads (function name : String) : Bool :=
  (bytes name).length < (bytes function).length
    && (bytes name).isPrefixOf (bytes function)
    && (bytes function)[(bytes name).length]? == some dot

-- An indirect call has no callee and calls none.
def calls (callee : Option String) (name : String) : Bool := callee.any (declares · name)

def callsOverload (callee : Option String) (name : String) : Bool :=
  callee.any (overloads · name)

end AttachedState.OperationName
