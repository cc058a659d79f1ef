/-!
The words of the query language that are not plain names.
-/

namespace QueryServer.Sql

inductive Keyword where
  | ABORT | ACTION | ADD | AFTER | ALL | ALTER | ALWAYS | ANALYZE | AND | AS | ASC | ATTACH
  | AUTOINCREMENT | BEFORE | BEGIN | BETWEEN | BY | CASCADE | CASE | CAST | CHECK | COLLATE
  | COLUMN | COMMIT | CONFLICT | CONSTRAINT | CREATE | CROSS | CURRENT | CURRENT_DATE
  | CURRENT_TIME | CURRENT_TIMESTAMP | DATABASE | DEFAULT | DEFERRABLE | DEFERRED | DELETE
  | DESC | DETACH | DISTINCT | DO | DROP | EACH | ELSE | END | ESCAPE | EXCEPT | EXCLUDE
  | EXCLUSIVE | EXISTS | EXPLAIN | FAIL | FIRST | FOLLOWING | FOR | FOREIGN | FROM | FULL
  | GENERATED | GLOB | GROUP | GROUPS | HAVING | IF | IGNORE | IMMEDIATE | IN | INDEX | INDEXED
  | INITIALLY | INNER | INSERT | INSTEAD | INTERSECT | INTO | IS | ISNULL | JOIN | KEY | LAST
  | LEFT | LIKE | LIMIT | MATCH | MATERIALIZED | NATURAL | NO | NOT | NOTHING | NOTNULL | NULL
  | NULLS | OF | OFFSET | ON | OR | ORDER | OTHERS | OUTER | PARTITION | PLAN | PRAGMA
  | PRECEDING | PRIMARY | QUERY | RAISE | RANGE | RECURSIVE | REFERENCES | REGEXP | REINDEX
  | RELEASE | RENAME | REPLACE | RESTRICT | RETURNING | RIGHT | ROLLBACK | ROW | ROWS
  | SAVEPOINT | SELECT | SET | TABLE | TEMP | TEMPORARY | THEN | TIES | TO | TRANSACTION
  | TRIGGER | UNBOUNDED | UNION | UNIQUE | UPDATE | USING | VACUUM | VALUES | VIEW | VIRTUAL
  | WHEN | WHERE | WITH | WITHOUT
  deriving DecidableEq, Repr

namespace Keyword

def table : List (String × Keyword) :=
  [("ABORT", ABORT), ("ACTION", ACTION), ("ADD", ADD), ("AFTER", AFTER), ("ALL", ALL),
   ("ALTER", ALTER), ("ALWAYS", ALWAYS), ("ANALYZE", ANALYZE), ("AND", AND), ("AS", AS),
   ("ASC", ASC), ("ATTACH", ATTACH), ("AUTOINCREMENT", AUTOINCREMENT), ("BEFORE", BEFORE),
   ("BEGIN", BEGIN), ("BETWEEN", BETWEEN), ("BY", BY), ("CASCADE", CASCADE), ("CASE", CASE),
   ("CAST", CAST), ("CHECK", CHECK), ("COLLATE", COLLATE), ("COLUMN", COLUMN),
   ("COMMIT", COMMIT), ("CONFLICT", CONFLICT), ("CONSTRAINT", CONSTRAINT), ("CREATE", CREATE),
   ("CROSS", CROSS), ("CURRENT", CURRENT), ("CURRENT_DATE", CURRENT_DATE),
   ("CURRENT_TIME", CURRENT_TIME), ("CURRENT_TIMESTAMP", CURRENT_TIMESTAMP),
   ("DATABASE", DATABASE), ("DEFAULT", DEFAULT), ("DEFERRABLE", DEFERRABLE),
   ("DEFERRED", DEFERRED), ("DELETE", DELETE), ("DESC", DESC), ("DETACH", DETACH),
   ("DISTINCT", DISTINCT), ("DO", DO), ("DROP", DROP), ("EACH", EACH), ("ELSE", ELSE),
   ("END", END), ("ESCAPE", ESCAPE), ("EXCEPT", EXCEPT), ("EXCLUDE", EXCLUDE),
   ("EXCLUSIVE", EXCLUSIVE), ("EXISTS", EXISTS), ("EXPLAIN", EXPLAIN), ("FAIL", FAIL),
   ("FIRST", FIRST), ("FOLLOWING", FOLLOWING), ("FOR", FOR), ("FOREIGN", FOREIGN),
   ("FROM", FROM), ("FULL", FULL), ("GENERATED", GENERATED), ("GLOB", GLOB), ("GROUP", GROUP),
   ("GROUPS", GROUPS), ("HAVING", HAVING), ("IF", IF), ("IGNORE", IGNORE),
   ("IMMEDIATE", IMMEDIATE), ("IN", IN), ("INDEX", INDEX), ("INDEXED", INDEXED),
   ("INITIALLY", INITIALLY), ("INNER", INNER), ("INSERT", INSERT), ("INSTEAD", INSTEAD),
   ("INTERSECT", INTERSECT), ("INTO", INTO), ("IS", IS), ("ISNULL", ISNULL), ("JOIN", JOIN),
   ("KEY", KEY), ("LAST", LAST), ("LEFT", LEFT), ("LIKE", LIKE), ("LIMIT", LIMIT),
   ("MATCH", MATCH), ("MATERIALIZED", MATERIALIZED), ("NATURAL", NATURAL), ("NO", NO),
   ("NOT", NOT), ("NOTHING", NOTHING), ("NOTNULL", NOTNULL), ("NULL", NULL), ("NULLS", NULLS),
   ("OF", OF), ("OFFSET", OFFSET), ("ON", ON), ("OR", OR), ("ORDER", ORDER),
   ("OTHERS", OTHERS), ("OUTER", OUTER), ("PARTITION", PARTITION), ("PLAN", PLAN),
   ("PRAGMA", PRAGMA), ("PRECEDING", PRECEDING), ("PRIMARY", PRIMARY), ("QUERY", QUERY),
   ("RAISE", RAISE), ("RANGE", RANGE), ("RECURSIVE", RECURSIVE), ("REFERENCES", REFERENCES),
   ("REGEXP", REGEXP), ("REINDEX", REINDEX), ("RELEASE", RELEASE), ("RENAME", RENAME),
   ("REPLACE", REPLACE), ("RESTRICT", RESTRICT), ("RETURNING", RETURNING), ("RIGHT", RIGHT),
   ("ROLLBACK", ROLLBACK), ("ROW", ROW), ("ROWS", ROWS), ("SAVEPOINT", SAVEPOINT),
   ("SELECT", SELECT), ("SET", SET), ("TABLE", TABLE), ("TEMP", TEMP),
   ("TEMPORARY", TEMPORARY), ("THEN", THEN), ("TIES", TIES), ("TO", TO),
   ("TRANSACTION", TRANSACTION), ("TRIGGER", TRIGGER), ("UNBOUNDED", UNBOUNDED),
   ("UNION", UNION), ("UNIQUE", UNIQUE), ("UPDATE", UPDATE), ("USING", USING),
   ("VACUUM", VACUUM), ("VALUES", VALUES), ("VIEW", VIEW), ("VIRTUAL", VIRTUAL),
   ("WHEN", WHEN), ("WHERE", WHERE), ("WITH", WITH), ("WITHOUT", WITHOUT)]

def ofWord? (word : String) : Option Keyword :=
  table.lookup (String.ofList (word.toList.map Char.toUpper))

/-- Keywords that name something wherever they have no meaning of their own. -/
def canBeName (k : Keyword) : Bool :=
  !reserved.contains k
where
  reserved : List Keyword :=
    [ADD, ALL, ALTER, AND, AS, AUTOINCREMENT, BETWEEN, CASE, CHECK, COLLATE, COMMIT,
     CONSTRAINT, CREATE, CROSS, DEFAULT, DEFERRABLE, DELETE, DISTINCT, DROP, ELSE, ESCAPE,
     EXCEPT, EXISTS, FOREIGN, FROM, FULL, GROUP, HAVING, IN, INDEX, INDEXED, INNER, INSERT,
     INTERSECT, INTO, IS, ISNULL, JOIN, LEFT, LIMIT, NATURAL, NOT, NOTHING, NOTNULL, NULL, ON,
     OR, ORDER, OUTER, PRIMARY, REFERENCES, RETURNING, RIGHT, SELECT, SET, TABLE, THEN, TO,
     TRANSACTION, UNION, UNIQUE, UPDATE, USING, VALUES, WHEN, WHERE]

/-- Keywords that say how two tables are joined. -/
def isJoin (k : Keyword) : Bool :=
  [CROSS, FULL, INNER, LEFT, NATURAL, OUTER, RIGHT].contains k

end Keyword
end QueryServer.Sql
