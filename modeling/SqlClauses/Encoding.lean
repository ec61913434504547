import SqlClauses.Expression
import SqlClauses.Json

/-!
# Values as JSON

How the values of the library are written as JSON. A value does not say of which kind it is: a name,
a text and the diagnostic of a malformed field are all strings, and every list is an array.
-/

namespace SqlClauses

/-- A span is an object of its two ends. -/
def Span.toJson (span : Span) : Json :=
  .obj [("start".toList, .num span.start), ("end".toList, .num span.stop)]

/-- A clause is an object of its keyword, the ends of its span and its content. -/
def Clause.toJson (clause : Clause) : Json :=
  .obj [("keyword".toList, .str clause.keyword.spelling), ("start".toList, .num clause.span.start),
    ("end".toList, .num clause.span.stop), ("content".toList, .str clause.content)]

/-- A name is a string, a name with its alias an object, and a malformed field the string that says
what is wrong with it. -/
def Field.toJson : Field → Json
  | named name => .str name
  | aliased qualifier name => .obj [("alias".toList, .str qualifier), ("field".toList, .str name)]
  | malformed token => .str (diagnostic token)

/-- A text is a string and a list an array. -/
def Value.toJson : Value → Json
  | text words => .str words
  | fields entries => .arr (entries.map Field.toJson)
  | conditions parts => .arr (parts.map .str)

/-- An expression is an object with a member for each keyword, in the order of the expression. -/
def Expression.toJson (expression : Expression) : Json :=
  .obj (expression.entries.map fun (keyword, value) => (keyword.key, value.toJson))

/-- A line of the keyword table is an object of reading, key and spelling. -/
def Keyword.toJson (keyword : Keyword) : Json :=
  .obj [("handler".toList, .str keyword.reading.name), ("key".toList, .str keyword.key),
    ("keyword".toList, .str keyword.spelling)]

end SqlClauses
