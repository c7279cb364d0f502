import LearnInternet.Http.Answer

/-!
Static routing against the checks of `HttpConnection::deliver`: the class that builds a response and
the class that looks it over agree for every request and every content of the file system.
-/

namespace LearnInternet.Http

open LearnInternet

/-- A request without a dynamic route gets a response that `deliver` lets through, with the decimal
length of its data: 200 with the bytes of a file it asks for exactly when one can be read, and 404
otherwise. -/
theorem routing_deliverable (router : HttpRouter) (host : Host) (mime : Headers) (req : HTTPReqObj)
    (connection : HttpConnection) (noRoute : router.invoked req = none) :
    let routed := router.routing host mime req
    let delivered := connection.deliver host routed.res
    delivered.1 = .ok .resOk ∧
      delivered.2.sent = connection.sent ++ [serializeDated host routed.res] ∧
      routed.res.header.find contentLength = some (Decimal.toBytes routed.res.data.length) ∧
      (routed.res.resCode = ascii "200" ↔
        ∃ path ∈ askedFiles req.reqTarget, (host.readFile path).isSome) ∧
      (routed.res.resCode = ascii "200" →
        ∃ path ∈ askedFiles req.reqTarget, host.readFile path = some routed.res.data) ∧
      (routed.res.resCode ≠ ascii "200" → routed.res.resCode = ascii "404") ∧
      routed.reads = askedFiles req.reqTarget ++
        (if routed.res.resCode = ascii "200" then [] else [notFoundPath]) := by
  have static : router.routing host mime req = routeStatic host mime req := by
    rw [HttpRouter.routing, noRoute]
  have different : ascii "404" ≠ ascii "200" := by decide
  obtain ⟨res, same, code, state, bound⟩ := finishResponse_of_routeStatic host mime req
  obtain ⟨accepted, sent⟩ := finishResponse_delivered host connection res code state bound
  have length : (routeStatic host mime req).res.header.find contentLength =
      some (Decimal.toBytes (routeStatic host mime req).res.data.length) := by
    rw [same]
    simp [finishResponse]
  rw [← same] at accepted sent
  simp only [static]
  refine ⟨accepted, sent, length, ?_⟩
  rcases routeStatic_cases host mime req with
    ⟨path, data, contentType, extended, asked, file, routed⟩ | ⟨missing, routed⟩
  · have found : (routeStatic host mime req).res.resCode = ascii "200" := by rw [routed]; rfl
    have body : (routeStatic host mime req).res.data = data := by rw [routed]; rfl
    simp only [found, body, asked, not_true_eq_false, true_iff, if_true, ne_eq]
    refine ⟨⟨path, by simp, by simp [file]⟩, fun _ => ⟨path, by simp, file⟩, by simp, ?_⟩
    rw [routed, List.append_nil]
  · have absent : (routeStatic host mime req).res.resCode = ascii "404" := by rw [routed]; rfl
    simp only [absent, different, false_iff, if_false, ne_eq, not_false_eq_true]
    refine ⟨?_, by simp, by simp, ?_⟩
    · rintro ⟨path, member, readable⟩
      simp [missing path member] at readable
    · rw [routed]

def helloHost : Host where
  readFile path := if path = ascii "./webroot/a.css" then some (ascii "b\x7b\x7d") else none
  readFile_bound := by
    intro path data read
    split at read
    · cases read
      decide
    · cases read
  throws _ := false
  date := []
  order := UnorderedMap.entries

def styleRequest : HTTPReqObj :=
  ⟨ascii "GET", ascii "/a.css", ascii "HTTP/1.0", UnorderedMap.empty, []⟩

theorem routing_deliverable_style :
    let routed := HttpRouter.empty.routing helloHost mimeMap styleRequest
    ((HttpConnection.ofSocket (Socket.ofChunks [])).deliver helloHost routed.res).1 = .ok .resOk ∧
      routed.res.resCode = ascii "200" ∧ routed.res.data = ascii "b\x7b\x7d" := by
  have delivered := routing_deliverable HttpRouter.empty helloHost mimeMap styleRequest
    (HttpConnection.ofSocket (Socket.ofChunks [])) rfl
  exact ⟨delivered.1, delivered.2.2.2.1.mpr ⟨ascii "./webroot/a.css", by decide, by decide⟩,
    by decide⟩

end LearnInternet.Http
