/-
**Builtins: the names that every program may use without declaring them.**

Four functions and three constants. Each has a type word, a kind, a bound on its arguments and a
form in C#; `Builtin.render` fills the form with the arguments of a call.
-/
import Guwen.Symbol

namespace Guwen

namespace Builtin

/-- **How a builtin is written in C#.** -/
inductive Form where
  /-- Always the same code. -/
  | fixed (code : Text)
  /-- All arguments, with commas between them, inside `before` and `after`. -/
  | enclose (before after : Text)
  /-- The first argument inside `before` and `after`; `absent` when there is none. -/
  | first (before after absent : Text)

/-- The code of a form with some arguments. -/
def Form.fill : Form → List Text → Text
  | fixed code, _ => code
  | enclose before after, arguments => before ++ Text.join ", " arguments ++ after
  | first _ _ absent, [] => absent
  | first before after _, argument :: _ => before ++ argument ++ after

end Builtin

/-- **A name of the language.** -/
structure Builtin where
  name : Text
  type : Text
  kind : SymbolKind
  /-- The most arguments it takes, if there is a limit. -/
  arity : Option Nat
  form : Builtin.Form

namespace Builtin

/-- The type word of functions. -/
def functionType : Text := "函數"

/-- **All builtins.** -/
def all : List Builtin :=
  [⟨"輸出", functionType, .function, none, .enclose "Console.WriteLine(" ")"⟩,
   ⟨"輸入", functionType, .function, some 0, .fixed "Console.ReadLine()"⟩,
   ⟨"長度", functionType, .function, some 1, .first "Convert.ToString(" ").Length" "0"⟩,
   ⟨"轉換", functionType, .function, some 1, .first "Convert.ToDouble(" ")" "0.0"⟩,
   ⟨"真", "布爾", .value, some 0, .fixed "true"⟩,
   ⟨"假", "布爾", .value, some 0, .fixed "false"⟩,
   ⟨"空", "空值", .value, some 0, .fixed "null"⟩]

/-- The builtin with a given name. -/
def find? (name : Text) : Option Builtin := all.find? (·.name == name)

/-- The C# code of a builtin with some arguments. -/
def render (b : Builtin) (arguments : List Text) : Text := b.form.fill arguments

/-- The symbol of a builtin, which belongs to the outermost scope. -/
def symbol (b : Builtin) : Symbol := ⟨b.name, b.type, b.kind, 0, true, .nowhere⟩

end Builtin

end Guwen
