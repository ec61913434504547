import SqlClauses.Text.Basic

/-!
# Keywords

The seventeen keywords that open a clause: how each is spelled in a query, the key that its content
is stored under, and how its content is read.
-/

namespace SqlClauses

/-- A keyword opens a clause. -/
inductive Keyword where
  /-- `SELECT`, the columns asked for. -/
  | select
  /-- `FROM`, the source of the rows. -/
  | fromTable
  /-- `WHERE`, the conditions on the rows. -/
  | whereCond
  /-- `UPDATE`, the table to change. -/
  | update
  /-- `INSERT`, what to add. -/
  | insert
  /-- `TO`, where it is added. -/
  | toTable
  /-- `VALUES`, the row to add. -/
  | values
  /-- `LEFT JOIN`. -/
  | leftJoin
  /-- `RIGHT JOIN`. -/
  | rightJoin
  /-- `INNER JOIN`. -/
  | innerJoin
  /-- `JOIN` with no side named. -/
  | join
  /-- `GROUP BY`. -/
  | groupBy
  /-- `ORDER BY`. -/
  | orderBy
  /-- `LIMIT`, the number of rows. -/
  | limit
  /-- `DESCRIBE`, the table to explain. -/
  | describe
  /-- An opening parenthesis. -/
  | openParen
  /-- A closing parenthesis. -/
  | closeParen
  deriving DecidableEq, Ord, Repr

/-- How the content of a clause is read. -/
inductive Reading where
  /-- As a list of columns. -/
  | fields
  /-- As a list of conditions. -/
  | conditions
  /-- As a list of tables to join. -/
  | join
  /-- As it stands. -/
  | verbatim
  deriving DecidableEq, Repr

namespace Reading

/-- The name of a reading. -/
def name : Reading → Text
  | fields => "fields".toList
  | conditions => "conditions".toList
  | join => "join".toList
  | verbatim => "scalar".toList

/-- Whether a further clause adds to what earlier ones left, rather than replace it. -/
def accumulates : Reading → Bool
  | verbatim => false
  | _ => true

end Reading

namespace Keyword

/-! ## Tables -/

/-- All keywords, in the order of their declaration. -/
def all : List Keyword :=
  [select, fromTable, whereCond, update, insert, toTable, values, leftJoin, rightJoin, innerJoin,
    join, groupBy, orderBy, limit, describe, openParen, closeParen]

/-- All keywords, those with the longest spelling first. -/
def byLength : List Keyword :=
  [rightJoin, innerJoin, leftJoin, groupBy, orderBy, describe, select, update, insert, values,
    whereCond, limit, fromTable, join, toTable, openParen, closeParen]

/-- How a keyword is written in a query. -/
def spelling : Keyword → Text
  | select => "SELECT".toList
  | fromTable => "FROM".toList
  | whereCond => "WHERE".toList
  | update => "UPDATE".toList
  | insert => "INSERT".toList
  | toTable => "TO".toList
  | values => "VALUES".toList
  | leftJoin => "LEFT JOIN".toList
  | rightJoin => "RIGHT JOIN".toList
  | innerJoin => "INNER JOIN".toList
  | join => "JOIN".toList
  | groupBy => "GROUP BY".toList
  | orderBy => "ORDER BY".toList
  | limit => "LIMIT".toList
  | describe => "DESCRIBE".toList
  | openParen => "(".toList
  | closeParen => ")".toList

/-- The key that a keyword's content is stored under. -/
def key : Keyword → Text
  | select => "select".toList
  | fromTable => "from".toList
  | whereCond => "where".toList
  | update => "update".toList
  | insert => "insert".toList
  | toTable => "to".toList
  | values => "values".toList
  | leftJoin => "leftJoin".toList
  | rightJoin => "rightJoin".toList
  | innerJoin => "innerJoin".toList
  | join => "join".toList
  | groupBy => "groupBy".toList
  | orderBy => "orderBy".toList
  | limit => "limit".toList
  | describe => "describe".toList
  | openParen => "(".toList
  | closeParen => ")".toList

/-- How the content of a keyword's clauses is read. -/
def reading : Keyword → Reading
  | select => .fields
  | whereCond => .conditions
  | leftJoin | rightJoin | innerJoin | join => .join
  | _ => .verbatim

/-- Whether the keyword is spelled in letters, so that it must stand as a token of its own. -/
def isWord : Keyword → Bool
  | openParen | closeParen => false
  | _ => true

/-- Whether the keyword joins a table. -/
def isJoin (keyword : Keyword) : Bool := keyword.reading == .join

/-! ## Looking up -/

/-- The keyword with exactly this spelling. -/
def ofSpelling? (text : Text) : Option Keyword :=
  all.find? fun keyword => keyword.spelling == text

/-- The keyword with exactly this key. -/
def ofKey? (text : Text) : Option Keyword :=
  all.find? fun keyword => keyword.key == text

/-- Every keyword is in the table by length. -/
theorem mem_byLength (keyword : Keyword) : keyword ∈ byLength := by cases keyword <;> decide

theorem spelling_ne_nil (keyword : Keyword) : keyword.spelling ≠ [] := by
  cases keyword <;> decide

end Keyword

end SqlClauses
