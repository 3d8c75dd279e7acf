import ApiServer.Middleware
import ApiServer.Schemas

/-!
# The routes of the server (`src/main.c`)
-/

namespace ApiServer

/-- The handlers of `src/handlers.c`, by name. -/
inductive Handler where
  | ping | version | sysinfo | rsysinfo | rcustomer | customer | sales | shippers | products
  | uuid | secretb32 | login | getqr | verifytotp | metrics | employee | prodget | supplier
  | customers | salesPgsql | upload | gasto | dummy | customerget | empOrders | empOrdersj
  | coordinator | coordinator2 | coordinator3
  deriving DecidableEq

def route (path : String) (allowedMethod : Command) (validationCtx : Option ValidationContext)
    (handler : Handler) (isFast : Bool) (authMode : AuthMode) : MiddlewareCtx Handler :=
  { path := bytes path, allowedMethod, validationCtx, handler := some handler, isFast, authMode }

def gRoutes (J : JsonC) : List (MiddlewareCtx Handler) := [
  route "/ping" .get none .ping true .none,
  route "/version" .get none .version true .apiKey,
  route "/sysinfo" .get none .sysinfo true .apiKey,
  route "/rsysinfo" .get none .rsysinfo false .jwt,
  route "/rcustomer" .post (some (customerContext J)) .rcustomer false .jwt,
  route "/customer" .post (some (customerContext J)) .customer true .jwt,
  route "/sales" .post (some (salesContext J)) .sales true .jwt,
  route "/shippers" .get none .shippers true .jwt,
  route "/products" .get none .products true .jwt,
  route "/uuid" .get none .uuid true .none,
  route "/secretb32" .get none .secretb32 true .none,
  route "/login" .post (some loginContext) .login false .none,
  route "/getqr" .get none .getqr true .jwt,
  route "/verifytotp" .post (some (verifyTotpContext J)) .verifytotp true .jwt,
  route "/metrics" .get none .metrics true .apiKey,
  route "/employee" .post (some employeeContext) .employee true .jwt,
  route "/prodget" .post (some prodgetContext) .prodget true .jwt,
  route "/supplier" .post (some supplierContext) .supplier true .jwt,
  route "/customers" .post (some customersContext) .customers true .jwt,
  route "/salespgsql" .post (some (salesContext J)) .salesPgsql true .jwt,
  route "/upload" .post (some uploadContext) .upload false .jwt,
  route "/gasto" .post (some gastoContext) .gasto true .jwt,
  route "/dummy" .post (some dummyContext) .dummy true .jwt,
  route "/customer/get" .post (some (customerContext J)) .customerget true .jwt,
  route "/emp/orders" .post (some employeeContext) .empOrders true .jwt,
  route "/emp/ordersj" .post (some employeeContext) .empOrdersj true .jwt,
  route "/coordinator" .post (some (coordinatorContext J)) .coordinator true .jwt,
  route "/coordinator2" .post (some employeeContext) .coordinator2 true .jwt,
  route "/coordinator3" .post (some employeeContext) .coordinator3 true .jwt]

/-- A route with a schema takes its payload from a POST. -/
theorem gRoutes_post {J : JsonC} {ctx : MiddlewareCtx Handler} (hctx : ctx ∈ gRoutes J)
    (h : ctx.validationCtx ≠ none) : ctx.allowedMethod = .post := by
  have hall : ∀ ctx ∈ gRoutes J, ctx.validationCtx.isNone ∨ ctx.allowedMethod = .post := by
    simp [gRoutes, route]
  obtain hnone | hpost := hall ctx hctx
  · exact absurd (Option.isNone_iff_eq_none.mp hnone) h
  · exact hpost

end ApiServer
