import QueryLowering.Query.Build

/-! Sample queries. -/
namespace QueryLowering.Query.Sample

def starBlock (table : String) : Block := .of (.regular [.all]) [.table table table]

/-- SELECT x FROM t AS x WHERE x > 1 -/
def selectWhere : Query :=
  .ofBlock ((Block.of (.regular [.named (.ofName "$x") "x"]) [.table "$t" "$x"]).withWhere
    (.binary (.ofName "$x") .gt (.int 1)))

/-- SELECT * FROM t -/
def selectStar : Query := .ofBlock (starBlock "$t")

/-- SELECT DISTINCT name FROM users -/
def selectDistinct : Query :=
  .ofBlock (.of (SelectClause.regular [.named (.ofName "$name") "name"]).asDistinct
    [.table "$users" "$users"])

/-- SELECT x.bar AS y FROM t AS x -/
def selectFieldAlias : Query :=
  .ofBlock (.of (.regular [.named (.field (.ofName "$x") "bar") "y"]) [.table "$t" "$x"])

/-- SELECT e.name FROM emp AS e, dept AS d WHERE e.dept = d.id -/
def selectTwoTables : Query :=
  .ofBlock ((Block.of (.regular [.named (.field (.ofName "$e") "name") "name"])
    [.table "$emp" "$e", .table "$dept" "$d"]).withWhere
    (.binary (.field (.ofName "$e") "dept") .eq (.field (.ofName "$d") "id")))

/-- SELECT status FROM orders AS o GROUP BY o.status AS status HAVING status = "open" -/
def groupByHaving : Query :=
  .ofBlock (((Block.of (.regular [.named (.ofName "$status") "status"])
    [.table "$orders" "$o"]).withGroupBy
    (.of [⟨.field (.ofName "$o") "status", some (.ofName "$status")⟩])).withHaving
    (.binary (.ofName "$status") .eq (.text "open")))

/-- SELECT * FROM a and SELECT * FROM b, combined by `op`. -/
def setOperation (op : SetOperator) (distinct : Bool) : Query :=
  .ofSelect (.of ((SetOperation.single (.block (starBlock "$a"))).withRight
    ⟨op, distinct, .block (starBlock "$b")⟩))

def union (distinct : Bool) : Query := setOperation .union distinct

/-- Two right operands, with different operators. -/
def twoRights : Query :=
  .ofSelect (.of (((SetOperation.single (.block (starBlock "$a"))).withRight
    ⟨.union, true, .block (starBlock "$b")⟩).withRight
    ⟨.intersect, false, .block (starBlock "$c")⟩))

/-- SELECT * FROM (SELECT * FROM t) AS s -/
def fromSubquery : Query :=
  .ofBlock (.of (.regular [.all])
    [.of (.select (Select.ofBlock (starBlock "$t")).asSubquery) (.ofName "$s")])

/-- The expression 1 = 1, which is no SELECT. -/
def expression : Query := .of (.binary (.int 1) .eq (.int 1))

end QueryLowering.Query.Sample
