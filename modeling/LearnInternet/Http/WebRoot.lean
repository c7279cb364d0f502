import LearnInternet.Http.Router

/-!
Which files static routing can reach. `WEBROOT` is put in front of the request target as it
stands, and the path is resolved component by component.
-/

namespace LearnInternet.Http

open LearnInternet LexicalPath

def slash : UInt8 := 47

def component (label : Bytes) : Component Bytes :=
  if label = [] ∨ label = ascii "." then .here
  else if label = ascii ".." then .up
  else .name label

def components (path : Bytes) : List (Component Bytes) := (path.splitOn slash).map component

/-- The path, resolved without looking at the file system, is the web root or lies in it. -/
def InWebRoot (path : Bytes) : Prop := (resolve (components path)).Below (ascii "webroot")

/-- Written behind `webroot`, the target enters a directory of that name from the server's
directory and never climbs out of it. -/
def KeepsToWebRoot (target : Bytes) : Prop :=
  ∃ before after,
    components (ascii "webroot" ++ target) =
      before ++ Component.name (ascii "webroot") :: after ∧
    Contained before ∧ depth before = 0 ∧ Contained after

theorem components_webroot (target : Bytes) :
    components (webroot ++ target) = .here :: components (ascii "webroot" ++ target) := by
  have split : webroot ++ target = ascii "." ++ slash :: (ascii "webroot" ++ target) := by
    have literal : webroot = ascii "." ++ slash :: ascii "webroot" := by decide
    rw [literal]
    simp
  rw [components, split, List.splitOn_append_cons_self_of_not_mem (by decide), List.map_cons]
  rfl

theorem resolve_here (path : List (Component Bytes)) : resolve (.here :: path) = resolve path := rfl

theorem inWebRoot_iff (target : Bytes) : InWebRoot (webroot ++ target) ↔ KeepsToWebRoot target := by
  rw [InWebRoot, components_webroot, resolve_here, resolve_below_iff]
  rfl

theorem indexPath_inWebRoot : InWebRoot indexPath := by
  refine ⟨?_, ?_⟩ <;> decide

theorem notFoundPath_inWebRoot : InWebRoot notFoundPath := by
  refine ⟨?_, ?_⟩ <;> decide

theorem getFileExten_isSome_iff (target : Bytes) : (getFileExten target).isSome ↔ 46 ∈ target := by
  rw [getFileExten, Option.isSome_map, Text.find_isSome_iff]
  exact List.singleton_infix_iff 46 target

theorem routeStatic_reads (host : Host) (mime : Headers) (req : HTTPReqObj) :
    (∀ path ∈ (routeStatic host mime req).reads,
      path = indexPath ∨ path = notFoundPath ∨ 46 ∈ req.reqTarget ∧ path = webroot ++ req.reqTarget) ∧
    (46 ∈ req.reqTarget → webroot ++ req.reqTarget ∈ (routeStatic host mime req).reads) := by
  have file (reads : List Bytes) (indexOnly : ∀ path ∈ reads, path = indexPath) :
      (∀ path ∈ (routeFile host mime req.reqTarget reads).reads,
        path = indexPath ∨ path = notFoundPath ∨
          46 ∈ req.reqTarget ∧ path = webroot ++ req.reqTarget) ∧
      (46 ∈ req.reqTarget →
        webroot ++ req.reqTarget ∈ (routeFile host mime req.reqTarget reads).reads) := by
    have dotted := getFileExten_isSome_iff req.reqTarget
    simp only [routeFile]
    cases exten : getFileExten req.reqTarget with
    | none =>
        rw [exten] at dotted
        have noDot : 46 ∉ req.reqTarget := fun dot => by simpa using dotted.mpr dot
        refine ⟨?_, fun dot => absurd dot noDot⟩
        intro path member
        rcases List.mem_append.mp member with inReads | last
        · exact Or.inl (indexOnly path inReads)
        · exact Or.inr (Or.inl (List.mem_singleton.mp last))
    | some exten' =>
        rw [exten] at dotted
        have dot : 46 ∈ req.reqTarget := dotted.mp rfl
        cases host.readFile (webroot ++ req.reqTarget) with
        | none =>
            refine ⟨?_, fun _ => by simp⟩
            intro path member
            simp only [List.mem_append, List.mem_cons, List.not_mem_nil, or_false] at member
            rcases member with inReads | same | same
            · exact Or.inl (indexOnly path inReads)
            · exact Or.inr (Or.inr ⟨dot, same⟩)
            · exact Or.inr (Or.inl same)
        | some data =>
            refine ⟨?_, fun _ => by simp⟩
            intro path member
            rcases List.mem_append.mp member with inReads | last
            · exact Or.inl (indexOnly path inReads)
            · exact Or.inr (Or.inr ⟨dot, List.mem_singleton.mp last⟩)
  simp only [routeStatic]
  split
  · rename_i root
    have noDot : 46 ∉ req.reqTarget := by rw [root]; decide
    cases host.readFile indexPath with
    | none => exact file [indexPath] (by simp)
    | some data =>
        refine ⟨fun path member => Or.inl (List.mem_singleton.mp member), ?_⟩
        exact fun dot => absurd dot noDot
  · exact file [] (by simp)

/-- Static routing stays in the web root for exactly those targets that have no dot or keep to the
web root when written behind it. -/
theorem routing_reads_inWebRoot_iff (router : HttpRouter) (host : Host) (mime : Headers)
    (req : HTTPReqObj) (noRoute : router.invoked req = none) :
    (∀ path ∈ (router.routing host mime req).reads, InWebRoot path) ↔
      (46 ∈ req.reqTarget → KeepsToWebRoot req.reqTarget) := by
  have reads := routeStatic_reads host mime req
  have routed : router.routing host mime req = routeStatic host mime req := by
    rw [HttpRouter.routing, noRoute]
  rw [routed]
  constructor
  · intro inside dot
    exact (inWebRoot_iff req.reqTarget).mp (inside _ (reads.2 dot))
  · intro keeps path member
    rcases reads.1 path member with rfl | rfl | ⟨dot, rfl⟩
    · exact indexPath_inWebRoot
    · exact notFoundPath_inWebRoot
    · exact (inWebRoot_iff req.reqTarget).mpr (keeps dot)

def getRequest (target : Bytes) : HTTPReqObj :=
  ⟨ascii "GET", target, ascii "HTTP/1.0", UnorderedMap.empty, []⟩

theorem routing_reads_inWebRoot_page :
    let page := webroot ++ ascii "/tech/a.html"
    page ∈ (HttpRouter.empty.routing emptyHost mimeMap (getRequest (ascii "/tech/a.html"))).reads ∧
      InWebRoot page := by
  have read : webroot ++ ascii "/tech/a.html" ∈ (HttpRouter.empty.routing emptyHost mimeMap
      (getRequest (ascii "/tech/a.html"))).reads := by decide
  refine ⟨read, ?_⟩
  apply (routing_reads_inWebRoot_iff HttpRouter.empty emptyHost mimeMap
    (getRequest (ascii "/tech/a.html")) rfl).mpr ?_ _ read
  intro _
  rw [← inWebRoot_iff]
  refine ⟨?_, ?_⟩ <;> decide

theorem routing_leaves_webRoot :
    ¬∀ (router : HttpRouter) (host : Host) (mime : Headers) (req : HTTPReqObj),
      router.invoked req = none →
        ∀ path ∈ (router.routing host mime req).reads, InWebRoot path := by
  intro confined
  have outside := confined HttpRouter.empty emptyHost mimeMap (getRequest (ascii "/../log.txt")) rfl
    (webroot ++ ascii "/../log.txt") (by decide)
  obtain ⟨-, outermost⟩ := outside
  revert outermost
  decide

end LearnInternet.Http
