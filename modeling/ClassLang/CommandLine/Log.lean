import ClassLang.Checking.Event

/-!
Log records. A message shows its control characters as escapes, so that it cannot steer a terminal;
line breaks and tabs stay.
-/

namespace ClassLang

/-! ## Style -/

/-- Text in one of the numbered styles of a terminal. -/
def styled (style : Nat) (text : String) : String :=
  "\x1b[" ++ toString style ++ "m" ++ text ++ "\x1b[0m"

/-- In red. -/
def red (text : String) : String := styled 31 text

/-- In green. -/
def green (text : String) : String := styled 32 text

/-- In yellow. -/
def yellow (text : String) : String := styled 33 text

/-- What stands for a character in a message. -/
def visibleChar (c : Char) : String :=
  if c = '\x1b' then "\\x1b"
  else if c = '\x07' then "\\x07"
  else if c = '\x08' then "\\x08"
  else if c = '\x0c' then "\\x0c"
  else if c = '\x7f' then "\\x7f"
  else if 0x80 ≤ c.toNat && c.toNat ≤ 0x9f then
    "\\u\x7b" ++ String.ofList (Nat.toDigits 16 c.toNat) ++ "\x7d"
  else c.toString

/-- A message as it is logged. -/
def visible (message : String) : String := String.join (message.toList.map visibleChar)

/-- A record with one message, on a line of its own. -/
def record (message : String) : String := visible message ++ "\n"

/-- A named value beside a message. -/
def logField (name value : String) : String := " " ++ styled 3 name ++ styled 2 "=" ++ value

/-! ## Events -/

/-- A verdict in a word. -/
def verdictWord (valid : Bool) : String := if valid then "valid" else "invalid"

/-- A declaration by its positions. -/
def Decl.text : Decl → String
  | .class i => "Class(ClassId(" ++ toString i ++ "))"
  | .function i => "Function(FunctionId(" ++ toString i ++ "))"
  | .method owner i => "Method(ClassId(" ++ toString owner ++ "), " ++ toString i ++ ")"
  | .field owner i => "Field(ClassId(" ++ toString owner ++ "), " ++ toString i ++ ")"

/-- The message of an event. -/
def Event.message : Event → String
  | parsed classes functions statements =>
    "parsed " ++ toString classes ++ " class(es), " ++ toString functions ++ " function(s), " ++
      toString statements ++ " statement(s)"
  | resolvingSignatures => "resolving declaration signatures"
  | validatingInheritance => "validating inheritance"
  | validatingOverloads => "validating overload sets"
  | checkingBodies => "checking bodies"
  | inheritance className valid => "inheritance of " ++ className ++ " is " ++ verdictWord valid
  | classBody name => "checking body of class " ++ name
  | functionBody name => "checking body of function " ++ name
  | resolvedCall .. => "resolved call"
  | resolvedOperator operator name => operator.symbol ++ " resolved to " ++ name
  | finished errors valid =>
    "analysis finished: " ++ toString errors ++ " error(s), program is " ++ verdictWord valid
  | countedUnused count => toString count ++ " unused declaration(s)"

/-- The values beside the message of an event. -/
def Event.fields : Event → String
  | resolvedCall call decl => logField "call" call.text ++ logField "decl" decl.text
  | _ => ""

/-- The record of an event. -/
def Event.record (event : Event) : String := visible event.message ++ event.fields ++ "\n"

end ClassLang
