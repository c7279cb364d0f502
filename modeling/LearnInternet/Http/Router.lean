import LearnInternet.Http.Codec
import LearnInternet.Lib.LexicalPath
import LearnInternet.Lib.SearchTree

/-!
`HttpRouter`: handlers in a `std::map` ordered by `RouterKey::operator<`, and files below
`WEBROOT` for what has no handler.
-/

namespace LearnInternet.Http

open LearnInternet

structure RouterKey where
  method : Bytes
  path : Bytes
  deriving DecidableEq

def RouterKey.equal (first second : RouterKey) : Bool :=
  decide (first.method = second.method) && decide (first.path = second.path)

/-- `method < other.method ? true : path < other.path`. -/
def RouterKey.less (first second : RouterKey) : Bool :=
  if first.method < second.method then true else decide (first.path < second.path)

abbrev Handler := HTTPReqObj → HTTPResObj

structure HttpRouter where
  funcMap : SearchTree RouterKey Handler

def HttpRouter.empty : HttpRouter := ⟨.leaf⟩

/-- `std::map` is free to rearrange its tree after an insertion; `balance` does that. -/
def HttpRouter.addRouter (balance : SearchTree RouterKey Handler → SearchTree RouterKey Handler)
    (router : HttpRouter) (key : RouterKey) (func : Handler) : HttpRouter :=
  ⟨balance (router.funcMap.insert RouterKey.less key func)⟩

def HttpRouter.register (balance : SearchTree RouterKey Handler → SearchTree RouterKey Handler)
    (routes : List (RouterKey × Handler)) : HttpRouter :=
  routes.foldl (fun router route => router.addRouter balance route.1 route.2) HttpRouter.empty

/-- The handler `routing` calls: `func_map_[k]` makes the descent of `find` again. -/
def HttpRouter.invoked (router : HttpRouter) (req : HTTPReqObj) : Option Handler :=
  SearchTree.find RouterKey.less ⟨req.method, req.reqTarget⟩ router.funcMap

/-- What the server's process gets from outside: files (their sizes are a `std::streamsize`), the
paths that open as something with no such size, the clock, and the order in which an `unordered_map`
lists its entries. Of a directory `tellg` gives `2 ^ 63 - 1`, and the `resize` of `Util::ReadFile` to
it throws. -/
structure Host where
  readFile : Bytes → Option Bytes
  readFile_bound : ∀ path data, readFile path = some data → data.length < 2 ^ 63
  throws : Bytes → Bool
  date : Bytes
  order : Headers → List (Bytes × Bytes)

def emptyHost : Host where
  readFile _ := none
  readFile_bound := by simp
  throws _ := false
  date := []
  order := UnorderedMap.entries

def webroot : Bytes := ascii "./webroot"

def getFileExten (path : Bytes) : Option Bytes :=
  (Text.find (ascii ".") path).map fun index => path.drop index

def mimeMap : Headers where
  entries := [
    (ascii ".html", ascii "text/html; charset=UTF-8"),
    (ascii ".css", ascii "text/css"),
    (ascii ".js", ascii "application/javascript"),
    (ascii ".png", ascii "image/png"),
    (ascii ".jpg", ascii "image/jpeg"),
    (ascii ".ico", ascii "image/x-icon")]
  unique := by decide

/-- `mime_map[exten]` enters an empty text under an unknown extension. -/
def mimeType (mime : Headers) (exten : Bytes) : Bytes × Headers :=
  match mime.find exten with
  | some value => (value, mime)
  | none => ([], mime.assign exten [])

/-- A response, the `mime_map` it leaves, and the paths given to `Util::ReadFile` on the way. -/
structure Routed where
  res : HTTPResObj
  mime : Headers
  reads : List Bytes

def finishResponse (res : HTTPResObj) : HTTPResObj :=
  { res with
    version := ascii "HTTP/1.0"
    header := (res.header.assign (ascii "Connection") (ascii "close")).assign contentLength
      (Decimal.toBytes res.data.length) }

def foundResponse (contentType data : Bytes) : HTTPResObj :=
  finishResponse { HTTPResObj.fresh with
    header := UnorderedMap.empty.assign (ascii "Content-Type") contentType
    resCode := ascii "200"
    resState := ascii "OK"
    data := data }

def notFoundResponse (host : Host) : HTTPResObj :=
  finishResponse { HTTPResObj.fresh with
    resCode := ascii "404"
    resState := ascii "Not Found"
    data := (host.readFile (webroot ++ ascii "/404.html")).getD [] }

def indexPath : Bytes := webroot ++ ascii "/index.html"

def notFoundPath : Bytes := webroot ++ ascii "/404.html"

def routeFile (host : Host) (mime : Headers) (target : Bytes) (reads : List Bytes) : Routed :=
  match getFileExten target with
  | none => ⟨notFoundResponse host, mime, reads ++ [notFoundPath]⟩
  | some exten =>
      match host.readFile (webroot ++ target) with
      | none => ⟨notFoundResponse host, mime, reads ++ [webroot ++ target, notFoundPath]⟩
      | some data =>
          let (contentType, mime) := mimeType mime exten
          ⟨foundResponse contentType data, mime, reads ++ [webroot ++ target]⟩

def routeStatic (host : Host) (mime : Headers) (req : HTTPReqObj) : Routed :=
  if req.reqTarget = ascii "/" then
    match host.readFile indexPath with
    | some data => ⟨foundResponse (ascii "text/html; charset=UTF-8") data, mime, [indexPath]⟩
    | none => routeFile host mime req.reqTarget [indexPath]
  else routeFile host mime req.reqTarget []

def HttpRouter.routing (router : HttpRouter) (host : Host) (mime : Headers) (req : HTTPReqObj) :
    Routed :=
  match router.invoked req with
  | some func => ⟨func req, mime, []⟩
  | none => routeStatic host mime req

/-- `routing` leaves by the exception of the first of its reads that throws. -/
def HttpRouter.routes (router : HttpRouter) (host : Host) (mime : Headers) (req : HTTPReqObj) :
    Except Abort Routed :=
  let routed := router.routing host mime req
  if routed.reads.any host.throws then .error .resizeFailed else .ok routed

/-! ### Dispatch -/

theorem bytes_lt_split {first second : Bytes} (less : first < second) (middle : Bytes) :
    first < middle ∨ middle < second := by
  by_contra neither
  rw [not_or, List.not_lt, List.not_lt] at neither
  exact List.not_lt.mpr (List.le_trans neither.2 neither.1) less

theorem RouterKey.less_iff (first second : RouterKey) :
    first.less second = true ↔ first.method < second.method ∨ first.path < second.path := by
  simp only [less]
  split
  · rename_i method
    simp [method]
  · rename_i method
    simp [method]

theorem RouterKey.comparison : SearchTree.Comparison RouterKey.less where
  irrefl key := by
    rw [Bool.eq_false_iff, Ne, less_iff]
    rintro (method | path)
    · exact List.lt_irrefl _ method
    · exact List.lt_irrefl _ path
  connected first second notLess notGreater := by
    rw [Bool.eq_false_iff, Ne, less_iff, not_or, List.not_lt, List.not_lt] at notLess notGreater
    obtain ⟨method, path⟩ := first
    obtain ⟨method', path'⟩ := second
    simp only [RouterKey.mk.injEq]
    exact ⟨List.le_antisymm notGreater.1 notLess.1, List.le_antisymm notGreater.2 notLess.2⟩
  split first second middle less := by
    rw [less_iff] at less ⊢
    rw [less_iff]
    rcases less with method | path
    · rcases bytes_lt_split method middle.method with early | late
      · exact Or.inl (Or.inl early)
      · exact Or.inr (Or.inl late)
    · rcases bytes_lt_split path middle.path with early | late
      · exact Or.inl (Or.inr early)
      · exact Or.inr (Or.inr late)

def RouterKey.Opposed (first second : RouterKey) : Prop :=
  first.method < second.method ∧ second.path < first.path

instance (first second : RouterKey) : Decidable (first.Opposed second) :=
  inferInstanceAs (Decidable (_ ∧ _))

theorem RouterKey.crossed_iff (first second : RouterKey) :
    SearchTree.Crossed RouterKey.less first second ↔
      first.Opposed second ∨ second.Opposed first := by
  have asymm {left right : Bytes} (less : left < right) : ¬right < left := List.lt_asymm less
  rw [SearchTree.Crossed, less_iff, less_iff, Opposed, Opposed]
  constructor
  · rintro ⟨method | path, method' | path'⟩
    · exact absurd method' (asymm method)
    · exact Or.inl ⟨method, path'⟩
    · exact Or.inr ⟨method', path⟩
    · exact absurd path' (asymm path)
  · rintro (⟨method, path⟩ | ⟨method, path⟩)
    · exact ⟨Or.inl method, Or.inr path⟩
    · exact ⟨Or.inr path, Or.inl method⟩

theorem RouterKey.equal_iff (first second : RouterKey) :
    first.equal second = true ↔ first = second := by
  obtain ⟨method, path⟩ := first
  obtain ⟨method', path'⟩ := second
  simp [equal]

theorem RouterKey.less_orderLaws_iff (first second third : RouterKey) :
    SearchTree.OrderLaws RouterKey.equal RouterKey.less first second third ↔
      ¬first.Opposed second ∧ ¬second.Opposed first := by
  rw [RouterKey.comparison.laws_iff_not_crossed RouterKey.equal_iff, crossed_iff, not_or]

/-- `/b` comes after `/a`, but `GET` before `POST`: each of the keys is less than the other. -/
theorem RouterKey.less_both_ways :
    ¬∀ first second third : RouterKey,
      SearchTree.OrderLaws RouterKey.equal RouterKey.less first second third := by
  intro laws
  have asymm := (laws ⟨ascii "GET", ascii "/b"⟩ ⟨ascii "POST", ascii "/a"⟩
    ⟨ascii "GET", ascii "/b"⟩).asymm (by decide)
  revert asymm
  decide

def Unopposed (routes : List (RouterKey × Handler)) : Prop :=
  ∀ first ∈ routes.map Prod.fst, ∀ second ∈ routes.map Prod.fst, ¬first.Opposed second

theorem unopposed_iff (routes : List (RouterKey × Handler)) :
    Unopposed routes ↔ ∀ first ∈ routes.map Prod.fst, ∀ second ∈ routes.map Prod.fst,
      ¬SearchTree.Crossed RouterKey.less first second := by
  simp only [RouterKey.crossed_iff, not_or]
  constructor
  · intro unopposed first firstIn second secondIn
    exact ⟨unopposed first firstIn second secondIn, unopposed second secondIn first firstIn⟩
  · intro uncrossed first firstIn second secondIn
    exact (uncrossed first firstIn second secondIn).1

theorem routes_ordered_iff (routes : List (RouterKey × Handler)) :
    (∀ first ∈ routes.map Prod.fst, ∀ second ∈ routes.map Prod.fst,
      ∀ third ∈ routes.map Prod.fst,
        SearchTree.OrderLaws RouterKey.equal RouterKey.less first second third) ↔
      Unopposed routes := by
  simp only [RouterKey.comparison.laws_iff_not_crossed RouterKey.equal_iff, unopposed_iff]
  constructor
  · intro ordered first firstIn second secondIn
    exact ordered first firstIn second secondIn first firstIn
  · intro uncrossed first firstIn second secondIn third _
    exact uncrossed first firstIn second secondIn

def firstRegistered (routes : List (RouterKey × Handler)) (req : HTTPReqObj) : Option Handler :=
  (routes.find? fun route => decide (route.1 = ⟨req.method, req.reqTarget⟩)).map Prod.snd

/-- `routing` calls the first handler registered for the request, and goes to the static files
when there is none. -/
def DispatchesExactly (router : HttpRouter) (routes : List (RouterKey × Handler))
    (req : HTTPReqObj) : Prop :=
  router.invoked req = firstRegistered routes req ∧
    ∀ host mime, router.routing host mime req =
      match firstRegistered routes req with
      | some func => ⟨func req, mime, []⟩
      | none => routeStatic host mime req

theorem firstRegistered_eq (routes : List (RouterKey × Handler)) (req : HTTPReqObj) :
    firstRegistered routes req =
      UnorderedMap.findIn ⟨req.method, req.reqTarget⟩ routes := by
  induction routes with
  | nil => rfl
  | cons route routes ih =>
      obtain ⟨key, func⟩ := route
      simp only [firstRegistered, List.find?_cons, UnorderedMap.findIn] at ih ⊢
      by_cases here : key = ⟨req.method, req.reqTarget⟩
      · simp [here]
      · simp only [here, decide_false, if_false]
        exact ih

theorem register_funcMap (balance : SearchTree RouterKey Handler → SearchTree RouterKey Handler)
    (routes : List (RouterKey × Handler)) :
    (HttpRouter.register balance routes).funcMap =
      SearchTree.fill balance RouterKey.less routes := by
  have run (router : HttpRouter) :
      (routes.foldl (fun router route => router.addRouter balance route.1 route.2) router).funcMap =
        SearchTree.fillFrom balance RouterKey.less routes router.funcMap := by
    induction routes generalizing router with
    | nil => rfl
    | cons route routes ih => exact ih _
  exact run HttpRouter.empty

theorem dispatchesExactly_iff (router : HttpRouter) (routes : List (RouterKey × Handler))
    (req : HTTPReqObj) :
    DispatchesExactly router routes req ↔ router.invoked req = firstRegistered routes req := by
  refine ⟨And.left, fun same => ⟨same, fun host mime => ?_⟩⟩
  rw [HttpRouter.routing, same]

/-- The search tree answers every request with the first handler registered for it exactly when no
two registered keys are opposed; when none are, rearranging the tree does no harm either. -/
theorem routing_first_registered_iff (routes : List (RouterKey × Handler)) :
    ((∀ req, DispatchesExactly (HttpRouter.register id routes) routes req) ↔ Unopposed routes) ∧
      (Unopposed routes → ∀ balance : SearchTree RouterKey Handler → SearchTree RouterKey Handler,
        (∀ tree, (balance tree).toList = tree.toList) →
          ∀ req, DispatchesExactly (HttpRouter.register balance routes) routes req) := by
  simp only [dispatchesExactly_iff, firstRegistered_eq, HttpRouter.invoked, register_funcMap,
    unopposed_iff]
  refine ⟨?_, ?_⟩
  · rw [← SearchTree.find_fill_iff RouterKey.comparison]
    constructor
    · intro exact key
      exact exact ⟨key.method, key.path, [], UnorderedMap.empty, []⟩
    · exact fun exact req => exact _
  · intro uncrossed balance keepsOrder req
    exact SearchTree.find_fill_balanced RouterKey.comparison balance keepsOrder routes uncrossed _

def orderedRoutes : List (RouterKey × Handler) :=
  [(⟨ascii "GET", ascii "/a"⟩, fun _ => HTTPResObj.fresh),
    (⟨ascii "POST", ascii "/b"⟩, fun _ => HTTPResObj.fresh)]

theorem routing_first_registered_ordered :
    Unopposed orderedRoutes ∧ (∀ req, DispatchesExactly (HttpRouter.register id orderedRoutes)
      orderedRoutes req) :=
  have unopposed : Unopposed orderedRoutes := by unfold Unopposed; decide
  ⟨unopposed, (routing_first_registered_iff orderedRoutes).2 unopposed id (fun _ => rfl)⟩

def opposedRoutes : List (RouterKey × Handler) :=
  [(⟨ascii "GET", ascii "/b"⟩, fun _ => HTTPResObj.fresh),
    (⟨ascii "POST", ascii "/a"⟩, fun _ => HTTPResObj.fresh)]

def opposedRequest : HTTPReqObj := ⟨ascii "POST", ascii "/a", ascii "HTTP/1.1", UnorderedMap.empty, []⟩

theorem routing_loses_opposed_route :
    ¬∀ routes req, DispatchesExactly (HttpRouter.register id routes) routes req := by
  intro exact
  have found := congrArg Option.isSome (exact opposedRoutes opposedRequest).1
  revert found
  decide

end LearnInternet.Http
