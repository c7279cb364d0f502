import LearnInternet.Http.Deliverable

/-!
The content type of a static file, and what is left of `mime_map` after any number of requests:
`GetFileExten` looks for the first dot of the whole target, and `mime_map[exten]` enters what it
does not find.
-/

namespace LearnInternet.Http

open LearnInternet

def contentTypeKey : Bytes := ascii "Content-Type"

structure ServedFile (router : HttpRouter) (host : Host) (req : HTTPReqObj) : Prop where
  noRoute : router.invoked req = none
  exten : (getFileExten req.reqTarget).isSome
  file : (host.readFile (webroot ++ req.reqTarget)).isSome

/-- The text from the last dot of the last path component. -/
def OwnExten (target exten : Bytes) : Prop :=
  ∃ front name, target = front ++ exten ∧ exten = 46 :: name ∧ 46 ∉ name ∧ 47 ∉ name

def FirstExten (target exten : Bytes) : Prop :=
  ∃ front name, target = front ++ exten ∧ exten = 46 :: name ∧ 46 ∉ front

/-- `mime_map` after a sequence of requests, each in the world it meets. -/
def mimeAfter (router : HttpRouter) (mime : Headers) (requests : List (Host × HTTPReqObj)) :
    Headers :=
  requests.foldl (fun mime asked => (router.routing asked.1 mime asked.2).mime) mime

theorem getFileExten_iff (target exten : Bytes) :
    getFileExten target = some exten ↔ FirstExten target exten := by
  have dot : ascii "." = [46] := rfl
  simp only [getFileExten, dot, Option.map_eq_some_iff, Text.find_letter_eq_some_iff]
  constructor
  · rintro ⟨index, ⟨front, name, rfl, absent, rfl⟩, rfl⟩
    rw [List.drop_left]
    exact ⟨front, name, rfl, rfl, absent⟩
  · rintro ⟨front, name, rfl, rfl, absent⟩
    exact ⟨front.length, ⟨front, name, rfl, absent, rfl⟩, List.drop_left⟩

/-! ### The table -/

theorem mimeMap_entries : ∀ entry ∈ mimeMap.entries, entry.1.count 46 = 1 ∧ entry.2 ≠ [] := by
  decide

theorem mimeMap_found {exten value : Bytes} (found : mimeMap.find exten = some value) :
    exten.count 46 = 1 ∧ value ≠ [] :=
  mimeMap_entries _ (UnorderedMap.findIn_eq_some_mem found)

/-- The table at the start, with empty texts under some other extensions. -/
def Grown (mime : Headers) : Prop :=
  ∀ exten, mime.find exten = mimeMap.find exten ∨
    (mimeMap.find exten = none ∧ mime.find exten = some [])

theorem mimeType_grown {mime : Headers} (grown : Grown mime) (exten : Bytes) :
    Grown (mimeType mime exten).2 := by
  simp only [mimeType]
  cases found : mime.find exten with
  | some value => exact grown
  | none =>
      intro query
      rw [UnorderedMap.find_assign]
      by_cases here : query = exten
      · subst here
        rcases grown query with same | ⟨-, entered⟩
        · exact Or.inr ⟨by rw [← same, found], if_pos rfl⟩
        · rw [found] at entered
          cases entered
      · rw [if_neg here]
        exact grown query

theorem mimeType_eq_iff {mime : Headers} (grown : Grown mime) {exten value : Bytes}
    (nonempty : value ≠ []) :
    (mimeType mime exten).1 = value ↔ mimeMap.find exten = some value := by
  simp only [mimeType]
  rcases grown exten with same | ⟨unknown, entered⟩
  · rw [← same]
    cases mime.find exten with
    | some other => simp
    | none => simpa using nonempty.symm
  · rw [entered, unknown]
    simpa using nonempty.symm

theorem mimeType_same_iff (mime : Headers) (exten : Bytes) :
    (mimeType mime exten).2.Same mimeMap ↔
      mime.Same mimeMap ∧ (mimeMap.find exten).isSome := by
  simp only [mimeType]
  cases found : mime.find exten with
  | some value =>
      simp only [iff_self_and]
      intro same
      rw [← same exten, found]
      rfl
  | none =>
      constructor
      · intro same
        have entered := same exten
        rw [UnorderedMap.find_assign, if_pos rfl] at entered
        exact absurd rfl (mimeMap_found entered.symm).2
      · rintro ⟨same, known⟩
        rw [← same exten, found] at known
        cases known

/-! ### One request -/

theorem routing_served {router : HttpRouter} {host : Host} {req : HTTPReqObj}
    (served : ServedFile router host req) (mime : Headers) :
    ∃ exten data, FirstExten req.reqTarget exten ∧
      (router.routing host mime req).res = foundResponse (mimeType mime exten).1 data ∧
      (router.routing host mime req).mime = (mimeType mime exten).2 := by
  obtain ⟨exten, first⟩ := Option.isSome_iff_exists.mp served.exten
  obtain ⟨data, file⟩ := Option.isSome_iff_exists.mp served.file
  have notRoot : req.reqTarget ≠ ascii "/" := by
    intro root
    have none : getFileExten (ascii "/") = none := by decide
    rw [root, none] at first
    cases first
  refine ⟨exten, data, (getFileExten_iff _ _).mp first, ?_⟩
  simp only [HttpRouter.routing, served.noRoute, routeStatic, notRoot, if_false, routeFile, first,
    file, and_self]

theorem routing_unserved {router : HttpRouter} {host : Host} {req : HTTPReqObj}
    (unserved : ¬ServedFile router host req) (mime : Headers) :
    (router.routing host mime req).mime = mime := by
  have unread (reads : List Bytes) (noRoute : router.invoked req = none) :
      (routeFile host mime req.reqTarget reads).mime = mime := by
    rcases routeFile_cases host mime req.reqTarget reads with
      ⟨data, contentType, extended, exten, file, routed⟩ | ⟨-, routed⟩
    · exact absurd ⟨noRoute, exten, by simp [file]⟩ unserved
    · rw [routed]
  simp only [HttpRouter.routing]
  cases noRoute : router.invoked req with
  | some func => rfl
  | none =>
      simp only [routeStatic]
      split
      · split
        · rfl
        · exact unread _ noRoute
      · exact unread _ noRoute

theorem routing_grown (router : HttpRouter) (host : Host) {mime : Headers} (grown : Grown mime)
    (req : HTTPReqObj) : Grown (router.routing host mime req).mime := by
  by_cases served : ServedFile router host req
  · obtain ⟨exten, -, -, -, left⟩ := routing_served served mime
    rw [left]
    exact mimeType_grown grown exten
  · rw [routing_unserved served]
    exact grown

theorem mimeAfter_grown (router : HttpRouter) (requests : List (Host × HTTPReqObj)) {mime : Headers}
    (grown : Grown mime) : Grown (mimeAfter router mime requests) := by
  induction requests generalizing mime with
  | nil => exact grown
  | cons asked requests ih => exact ih (routing_grown router asked.1 grown asked.2)

def KnownExten (router : HttpRouter) (host : Host) (req : HTTPReqObj) : Prop :=
  ServedFile router host req →
    ∃ exten, FirstExten req.reqTarget exten ∧ (mimeMap.find exten).isSome

theorem firstExten_unique {target exten other : Bytes} (first : FirstExten target exten)
    (second : FirstExten target other) : exten = other := by
  rw [← getFileExten_iff] at first second
  exact Option.some.inj (first.symm.trans second)

theorem routing_same_iff (router : HttpRouter) (host : Host) (mime : Headers) (req : HTTPReqObj) :
    (router.routing host mime req).mime.Same mimeMap ↔
      mime.Same mimeMap ∧ KnownExten router host req := by
  by_cases served : ServedFile router host req
  · obtain ⟨exten, -, first, -, left⟩ := routing_served served mime
    rw [left, mimeType_same_iff]
    constructor
    · exact fun both => ⟨both.1, fun _ => ⟨exten, first, both.2⟩⟩
    · rintro ⟨same, known⟩
      obtain ⟨other, otherFirst, found⟩ := known served
      rw [firstExten_unique first otherFirst]
      exact ⟨same, found⟩
  · rw [routing_unserved served]
    exact ⟨fun same => ⟨same, fun serve => absurd serve served⟩, And.left⟩

theorem mimeAfter_same_iff (router : HttpRouter) (mime : Headers)
    (requests : List (Host × HTTPReqObj)) :
    (mimeAfter router mime requests).Same mimeMap ↔
      mime.Same mimeMap ∧ ∀ asked ∈ requests, KnownExten router asked.1 asked.2 := by
  induction requests generalizing mime with
  | nil => simp [mimeAfter]
  | cons asked requests ih =>
      have rest := ih (router.routing asked.1 mime asked.2).mime
      rw [routing_same_iff, and_assoc] at rest
      rw [List.forall_mem_cons]
      exact rest

/-! ### The header that is sent -/

@[simp] theorem foundResponse_contentType (value data : Bytes) :
    (foundResponse value data).header.find contentTypeKey = some value := by
  have notLength : contentTypeKey ≠ contentLength := by decide
  have notConnection : contentTypeKey ≠ ascii "Connection" := by decide
  simp only [foundResponse, finishResponse, UnorderedMap.find_assign, notLength, notConnection,
    if_false]
  exact if_pos rfl

theorem FirstExten.count_eq {target exten : Bytes} (first : FirstExten target exten) :
    target.count 46 = exten.count 46 := by
  obtain ⟨front, name, rfl, -, absent⟩ := first
  rw [List.count_append, List.count_eq_zero.mpr absent, Nat.zero_add]

theorem OwnExten.first {target exten : Bytes} (own : OwnExten target exten)
    (single : target.count 46 = 1) : FirstExten target exten := by
  obtain ⟨front, name, rfl, rfl, -, -⟩ := own
  rw [List.count_append, List.count_cons_self] at single
  exact ⟨front, name, rfl, rfl, List.count_eq_zero.mp (by omega)⟩

/-- After any requests: the content type is that of the file's own extension exactly when its dot is
the only one of the target, and `mime_map` has its entries still exactly when it knows the text from
the first dot of every target that was served. -/
theorem routing_contentType_iff (router : HttpRouter) (requests : List (Host × HTTPReqObj)) :
    (∀ (host : Host) (req : HTTPReqObj) (exten value : Bytes),
      ServedFile router host req → OwnExten req.reqTarget exten →
        mimeMap.find exten = some value →
          ((router.routing host (mimeAfter router mimeMap requests) req).res.header.find
              contentTypeKey = some value ↔ req.reqTarget.count 46 = 1)) ∧
      ((mimeAfter router mimeMap requests).Same mimeMap ↔
        ∀ asked ∈ requests, KnownExten router asked.1 asked.2) := by
  constructor
  · intro host req exten value served own found
    have grown := mimeAfter_grown router requests (fun query => Or.inl rfl)
    obtain ⟨first, data, fromFirst, answer, -⟩ :=
      routing_served served (mimeAfter router mimeMap requests)
    rw [answer, foundResponse_contentType, Option.some.injEq,
      mimeType_eq_iff grown (mimeMap_found found).2]
    constructor
    · intro foundFirst
      rw [fromFirst.count_eq]
      exact (mimeMap_found foundFirst).1
    · intro single
      rw [firstExten_unique fromFirst (own.first single)]
      exact found
  · rw [mimeAfter_same_iff]
    exact ⟨And.right, fun known => ⟨fun _ => rfl, known⟩⟩

def emptyFiles : Host where
  readFile _ := some []
  throws _ := false
  readFile_bound path data read := by
    rw [← Option.some.inj read]
    exact Nat.two_pow_pos 63
  date := []
  order := UnorderedMap.entries

def askFor (target : Bytes) : HTTPReqObj :=
  ⟨ascii "GET", target, ascii "HTTP/1.0", UnorderedMap.empty, []⟩

def askStyle : HTTPReqObj := askFor (ascii "/a.css")

def askScript : HTTPReqObj := askFor (ascii "/b.min.js")

theorem routing_contentType_style :
    (HttpRouter.empty.routing emptyFiles
        (mimeAfter HttpRouter.empty mimeMap [(emptyFiles, askScript)]) askStyle).res.header.find
          contentTypeKey = some (ascii "text/css") ∧
      (mimeAfter HttpRouter.empty mimeMap [(emptyFiles, askStyle)]).Same mimeMap := by
  have served : ServedFile HttpRouter.empty emptyFiles askStyle := ⟨rfl, by decide, rfl⟩
  have own : OwnExten askStyle.reqTarget (ascii ".css") :=
    ⟨ascii "/a", ascii "css", by decide, by decide, by decide, by decide⟩
  refine ⟨((routing_contentType_iff HttpRouter.empty [(emptyFiles, askScript)]).1 emptyFiles askStyle
    (ascii ".css") (ascii "text/css") served own (by decide)).mpr (by decide), ?_⟩
  refine (routing_contentType_iff HttpRouter.empty [(emptyFiles, askStyle)]).2.mpr ?_
  intro asked member _
  rw [List.mem_singleton.mp member]
  exact ⟨ascii ".css", ⟨ascii "/a", ascii "css", by decide, by decide, by decide⟩, by decide⟩

theorem routing_loses_contentType :
    (¬∀ (host : Host) (req : HTTPReqObj) (exten value : Bytes),
      ServedFile HttpRouter.empty host req → OwnExten req.reqTarget exten →
        mimeMap.find exten = some value →
          (HttpRouter.empty.routing host mimeMap req).res.header.find contentTypeKey =
            some value) ∧
      ¬∀ requests, (mimeAfter HttpRouter.empty mimeMap requests).Same mimeMap := by
  constructor
  · intro follows
    have sent := follows emptyFiles askScript (ascii ".js") (ascii "application/javascript")
      ⟨rfl, by decide, rfl⟩
      ⟨ascii "/b.min", ascii "js", by decide, by decide, by decide, by decide⟩ (by decide)
    revert sent
    decide
  · intro same
    have entered := same [(emptyFiles, askScript)] (ascii ".min.js")
    revert entered
    decide

end LearnInternet.Http
