/-!
# The calling convention

Every generated function takes an array of input arrays, an array of output
arrays and a table of atomic functions.  The function of a loop group takes the
key before them.

The table is a C structure, and the text that declares it begins every
generated file.
-/

namespace SparseLoop

/-- The lines that declare the table of atomic functions. -/
def atomicTableLines : List String :=
  [ "typedef struct Array \x7b",
    "   void* data;",
    "   unsigned long size;",
    "   int sparse;",
    "   const unsigned long* idx;",
    "   unsigned long nnz;",
    "\x7d Array;",
    "",
    "struct LangCAtomicFun \x7b",
    "   void* libModel;",
    "   int (*forward)(void* libModel, int atomicIndex, int q, int p, " ++
      "const Array tx[], Array* ty);",
    "   int (*reverse)(void* libModel, int atomicIndex, int p, " ++
      "const Array tx[], const Array* ty, Array* px, const Array py[]);",
    "\x7d;" ]

/-- The type of the values and the names of the arguments of a function. -/
structure Signature where
  baseType : String
  input : String := "in"
  output : String := "out"
  atomics : String := "atomicFun"
deriving DecidableEq, Repr

namespace Signature

/-- The same convention with other names for the input and output arrays. -/
def withArrays (signature : Signature) (input output : String) : Signature :=
  { signature with input, output }

/-- The declaration of the arguments. -/
def parameters (signature : Signature) : String :=
  s!"{signature.baseType} const *const * {signature.input}, " ++
    s!"{signature.baseType} * const * {signature.output}, " ++
    s!"struct LangCAtomicFun {signature.atomics}"

/-- The arguments as they are passed on. -/
def arguments (signature : Signature) : String :=
  s!"{signature.input}, {signature.output}, {signature.atomics}"

/-- The declaration of the arguments of a group function. -/
def keyedParameters (signature : Signature) (keyName : String) : String :=
  s!"unsigned long {keyName}, {signature.parameters}"

end Signature

end SparseLoop
