import ApiServer.Dbapi
import ApiServer.Routes
import ApiServer.Validation.IntField

/-!
# Handlers (`src/handlers.c`)

A handler appends to the output buffer and returns the status code that it stores.
-/

namespace ApiServer
open Bytes

def httpOk : Int := 200

def httpInternal : Int := 500

section
variable (J : JsonC) (fmt17g : Rat → Bytes) (cfg : Config)

/-- An `int` read from a body that may be null. -/
def bodyInt (body : Option Json) (key : Bytes) : Int :=
  body.elim 0 fun body => handlerInt J body key

def bodyString (body : Option Json) (key : Bytes) : Option Bytes :=
  body.bind fun body => jsonGetString J body key

/-! ## One query -/

/-- The status is `HTTP_OK` unless the query fails. -/
def queryStatus (query : DbM Bool) : DbM Int := do
  if ← query then return httpOk else return httpInternal

section
variable (a : StatementAnswers (List JsonRowAnswer)) (body : Option Json)

def customerHandler : DbM Int :=
  queryStatus (dbGetJson cfg 0 (bytes "\x7bCALL sp_customer_get(?)\x7d")
    [.string (bodyString J body (bytes "id"))] a)

def salesHandler : DbM Int :=
  queryStatus (dbGetJson cfg 0 (bytes "\x7bCALL sp_sales_by_category(?,?)\x7d")
    [.string (bodyString J body (bytes "start_date")),
      .string (bodyString J body (bytes "end_date"))] a)

def shippersHandler : DbM Int :=
  queryStatus (dbGetJson cfg 0 (bytes "\x7bCALL sp_shippers_view\x7d") [] a)

def productsHandler : DbM Int :=
  queryStatus (dbGetJson cfg 0 (bytes "\x7bCALL sp_products_view\x7d") [] a)

def customersHandler : DbM Int :=
  queryStatus (dbGetJson cfg 0 (bytes "\x7bCALL sp_customers_like(?)\x7d")
    [.string (bodyString J body (bytes "filter"))] a)

def salesPgsqlHandler : DbM Int :=
  queryStatus (dbGetJson cfg 1 (bytes "select get_sales_by_category(?, ?)")
    [.string (bodyString J body (bytes "start_date")),
      .string (bodyString J body (bytes "end_date"))] a)

def empOrdersjHandler : DbM Int :=
  queryStatus (dbGetJson cfg 1 (bytes "SELECT demo.get_employee_orders_j(?)")
    [.int (some (bodyInt J body (bytes "id")))] a)

end

section
variable (a : StatementAnswers ResultSetAnswer) (body : Option Json)

def employeeHandler : DbM Int :=
  queryStatus (dbGetRs2json fmt17g cfg 0 (bytes "\x7bCALL emp_get(?)\x7d")
    [.int (some (bodyInt J body (bytes "id")))] a)

def prodgetHandler : DbM Int :=
  queryStatus (dbGetRs2json fmt17g cfg 0 (bytes "\x7bCALL product_get(?)\x7d")
    [.int (some (bodyInt J body (bytes "id")))] a)

def supplierHandler : DbM Int :=
  queryStatus (dbGetRs2json fmt17g cfg 0 (bytes "\x7bCALL supplier_get(?)\x7d")
    [.int (some (bodyInt J body (bytes "id")))] a)

def gastoHandler : DbM Int :=
  let sql :=
    "DECLARE @out_fecha DATE;" ++
    "DECLARE @out_categ_id INT;" ++
    "DECLARE @out_monto MONEY;" ++
    "DECLARE @out_motivo VARCHAR(150);" ++
    "EXEC dbo.ObtenerGasto" ++
    "    @gasto_id = ?," ++
    "    @fecha = @out_fecha OUTPUT," ++
    "    @categ_id = @out_categ_id OUTPUT," ++
    "    @monto = @out_monto OUTPUT," ++
    "    @motivo = @out_motivo OUTPUT;" ++
    "SELECT" ++
    "    @out_fecha AS Fecha," ++
    "    @out_categ_id AS CategID," ++
    "    @out_monto AS Monto," ++
    "    @out_motivo AS Motivo;"
  queryStatus (dbGetRs2json fmt17g cfg 0 (bytes sql) [.int (some (bodyInt J body (bytes "id")))] a)

def dummyHandler : DbM Int :=
  let query :=
    "DECLARE @Out1 INT;\n" ++
    "DECLARE @Out2 VARCHAR(255);\n" ++
    "EXEC dbo.TestDummySP @InParam1=?, @OutParam1=@Out1 OUTPUT, @OutParam2=@Out2 OUTPUT;\n" ++
    "SELECT @Out1 AS OutParam1, @Out2 AS OutParam2;"
  queryStatus (dbGetRs2json fmt17g cfg 0 (bytes query) [.int (some (bodyInt J body (bytes "id")))] a)

end

section
variable (a : StatementAnswers ResultsAnswer) (body : Option Json)

def customergetHandler : DbM Int :=
  queryStatus (dbGetRs2jsonM fmt17g cfg 0 (bytes "\x7bCALL dbo.get_customer_info(?)\x7d")
    [.string (bodyString J body (bytes "id"))] a)

def empOrdersHandler : DbM Int :=
  queryStatus (dbGetRs2jsonM fmt17g cfg 0 (bytes "\x7bCALL dbo.get_emp_orders(?)\x7d")
    [.int (some (bodyInt J body (bytes "id")))] a)

def coordinatorHandler : DbM Int :=
  queryStatus (dbGetRs2jsonM fmt17g cfg 0 (bytes "\x7bCALL dbo.coordinator(?, ?)\x7d")
    [.int (some (bodyInt J body (bytes "gasto_id"))),
      .string (bodyString J body (bytes "customer_id"))] a)

end

/-! ## Two queries -/

/-- The answers are those of the two databases. -/
def coordinator2Handler (a₁ : StatementAnswers ResultSetAnswer)
    (a₂ : StatementAnswers (List JsonRowAnswer)) (body : Option Json) : DbM Int := do
  let params := [QueryParam.int (some (bodyInt J body (bytes "id")))]
  evbufferAdd (bytes "\x7b\"r1\":")
  if ← dbGetRs2json fmt17g cfg 0 (bytes "EXEC emp_get @id = ?") params a₁ then
    evbufferAdd (bytes ",\"r2\":")
    if ← dbGetJson cfg 1 (bytes "SELECT demo.get_employee_orders_j(?)") params a₂ then
      evbufferAdd (bytes "\x7d")
      return httpOk
    else return httpInternal
  else return httpInternal

/-! ## By name -/

/-- The answers of the databases to whichever of the calls a handler makes. -/
structure DatabaseAnswers where
  json : StatementAnswers (List JsonRowAnswer) := { fetch := [] }
  rs2json : StatementAnswers ResultSetAnswer := { fetch := {} }
  rs2jsonM : StatementAnswers ResultsAnswer := { fetch := {} }

/-- The handlers that do nothing but query databases with `db_get_*`. -/
def databaseHandler (a : DatabaseAnswers) (body : Option Json) : Handler → Option (DbM Int)
  | .customer => some (customerHandler J cfg a.json body)
  | .sales => some (salesHandler J cfg a.json body)
  | .shippers => some (shippersHandler cfg a.json)
  | .products => some (productsHandler cfg a.json)
  | .customers => some (customersHandler J cfg a.json body)
  | .salesPgsql => some (salesPgsqlHandler J cfg a.json body)
  | .empOrdersj => some (empOrdersjHandler J cfg a.json body)
  | .employee => some (employeeHandler J fmt17g cfg a.rs2json body)
  | .prodget => some (prodgetHandler J fmt17g cfg a.rs2json body)
  | .supplier => some (supplierHandler J fmt17g cfg a.rs2json body)
  | .gasto => some (gastoHandler J fmt17g cfg a.rs2json body)
  | .dummy => some (dummyHandler J fmt17g cfg a.rs2json body)
  | .customerget => some (customergetHandler J fmt17g cfg a.rs2jsonM body)
  | .empOrders => some (empOrdersHandler J fmt17g cfg a.rs2jsonM body)
  | .coordinator => some (coordinatorHandler J fmt17g cfg a.rs2jsonM body)
  | .coordinator2 => some (coordinator2Handler J fmt17g cfg a.rs2json a.json body)
  | _ => none

end
end ApiServer
