import Nghttp2Corosio.Handler.ExchangeInvariant

/-!
The heads of a request and of its response.

The header block of a request is decoded by the stream of the server, `echo` sets
the content length it finds there on its response, and the stream of the client
decodes the header block that comes back. All of that happens field by field,
while bodies are on their way and reads and writes are outstanding at both ends.
`echo` is started when the block of the request is complete. A `get_response()`
of the client returns as soon as the status is known, so it may miss what comes
after it.
-/

namespace Nghttp2Corosio

open Async Buffers Flow Runs

/-- The exchanges that begin with a given request. -/
def requestMachine (up down : Limits) (path : Bytes) (contentLength : Option ℕ)
    (headers : List (Bytes × Bytes)) : Machine Exchange ExchangeAction ExchangeLabel where
  init x := ∃ id, x = Exchange.fresh up down id path contentLength headers
  step := Exchange.step up down

/-- What `echo` answers to a request, whenever it does. -/
structure Echo.Answers (contentLength : Option ℕ) (tr : List EchoLabel) (e : Echo) : Prop where
  response : e.pc ≠ .start → e.response = ⟨contentLength⟩
  submitted : ∀ fields accepted, .submitted fields accepted ∈ tr →
    fields = Response.submit ⟨contentLength⟩ 200 []

theorem Echo.Answers.step {contentLength : Option ℕ} {tr os : List EchoLabel} {e e' : Echo}
    {a : EchoAction} (h : e.Answers contentLength tr)
    (hstart : ∀ accepted, a = .go accepted → e.pc = .start →
      e.cell.stream.head.request.contentLength = contentLength)
    (hs : e.step a = some (e', os)) : e'.Answers contentLength (tr ++ os) := by
  have hsilent {ls : List Label} :
      ∀ fields accepted, .submitted fields accepted ∈ tr ++ ls.map EchoLabel.stream →
        fields = Response.submit ⟨contentLength⟩ 200 [] := by
    intro fields accepted hmem
    rcases List.mem_append.mp hmem with hmem | hmem
    · exact h.submitted fields accepted hmem
    · obtain ⟨l, -, heq⟩ := List.mem_map.mp hmem
      cases heq
  cases Echo.step_moves hs with
  | callback act cell ls => exact ⟨h.response, hsilent⟩
  | enter accepted hidle hpc =>
      rw [List.append_nil]
      refine ⟨fun _ => ?_, h.submitted⟩
      rw [hstart accepted rfl hpc]
  | submit accepted hidle hpc =>
      have hresponse := h.response (by rintro heq; rw [heq] at hpc; cases hpc)
      refine ⟨fun _ => hresponse, fun fields accepted' hmem => ?_⟩
      rcases List.mem_append.mp hmem with hmem | hmem
      · exact h.submitted fields accepted' hmem
      · rw [← hresponse]
        exact (EchoLabel.submitted.inj (List.mem_singleton.mp hmem)).1
  | read hpc hact hstep => exact ⟨fun _ => h.response (by rw [hpc]; nofun), hsilent⟩
  | write hop hact hstep =>
      exact ⟨fun _ => h.response (by rintro heq; rw [heq] at hop; cases hop), hsilent⟩
  | stopIdle =>
      rw [List.append_nil]
      exact ⟨h.response, h.submitted⟩
  | stopOp act cell ls => exact ⟨h.response, hsilent⟩

theorem block_submits (tr : List EchoLabel) :
    tr.flatMap EchoLabel.block = (submits tr).flatMap EchoLabel.block := by
  induction tr with
  | nil => rfl
  | cons l tr ih =>
      cases l with
      | stream l => exact ih
      | submitted fields accepted => exact congrArg (EchoLabel.block _ ++ ·) ih

/-- nghttp2 has a provider for the response only if it has accepted one. -/
theorem Echo.block_of_submitted {e : Echo} {tr : List EchoLabel}
    (run : echoMachine.Run anyStep tr e) (h : e.cell.provider.submitted = true) :
    tr.flatMap EchoLabel.block ≠ [] := by
  refine run.invariant (I := fun tr e => e.cell.provider.submitted = true →
    tr.flatMap EchoLabel.block ≠ []) ?_ ?_ h
  · rintro e ⟨id, rfl⟩ hsubmitted
    cases hsubmitted
  · intro tr e a e' os ih _ hs hsubmitted
    rw [List.flatMap_append]
    have hbefore (heq : e'.cell.provider.submitted = e.cell.provider.submitted) :
        tr.flatMap EchoLabel.block ++ os.flatMap EchoLabel.block ≠ [] := by
      rw [heq] at hsubmitted
      simp [ih hsubmitted]
    cases Echo.step_moves hs with
    | callback act cell ls hallows hstep =>
        refine hbefore (Cell.step_submitted hstep ?_)
        rintro rfl
        cases hallows
    | enter => exact hbefore rfl
    | submit accepted hidle hpc =>
        cases accepted with
        | true => simp [Echo.submit, EchoLabel.block, Response.submit, submitResponseFields]
        | false => exact hbefore rfl
    | read hpc hact hstep =>
        refine hbefore (Cell.step_submitted hstep ?_)
        rcases hact with rfl | rfl <;> intro hact <;> cases hact
    | write hop hact hstep =>
        refine hbefore (Cell.step_submitted hstep ?_)
        rcases hact with rfl | ⟨rfl, -⟩ <;> intro hact <;> cases hact
    | stopIdle => exact hbefore rfl
    | stopOp act cell ls hact hstep =>
        refine hbefore (Cell.step_submitted hstep ?_)
        rcases hact with ⟨rfl, -⟩ | ⟨rfl, -⟩ <;> intro hact <;> cases hact

section Heads

variable {up down : Limits} {path : Bytes} {contentLength : Option ℕ}
  {headers : List (Bytes × Bytes)} {tr : List ExchangeLabel} {x : Exchange}

theorem Exchange.Inv.head_whole
    (h : x.Inv up down (submitRequestFields path contentLength headers) tr)
    (hn : ∀ n ∈ contentLength, n < 2 ^ 64) (hheaders : PlainHeaders headers)
    (hhead : x.request.head = []) :
    x.server.cell.stream.head.request =
      ⟨path, contentLength, contentLengthField contentLength ++ headers⟩ := by
  refine Head.request_of_fields (Echo.inv_run h.server).1.run hn hheaders ?_
  have hfields := h.request.head
  rw [hhead, List.append_nil] at hfields
  exact hfields.symm

/-- `echo` is started when the request has arrived in full, and not before. -/
theorem Exchange.started_step {x' : Exchange} {os : List ExchangeLabel} {a : ExchangeAction}
    (h : x.server.pc ≠ .start → x.request.head = [])
    (hs : x.step up down a = some (x', os)) (hpc : x'.server.pc ≠ .start) :
    x'.request.head = [] := by
  cases Exchange.step_moves hs with
  | client act client response ls =>
      rw [Leg.foldl_sent]
      exact h hpc
  | request a leg hcredit =>
      obtain ⟨ch, -, rfl⟩ := Option.map_eq_some_iff.mp hcredit
      exact h hpc
  | response a leg hcredit => exact h hpc
  | server a server request ls hhears hreceive hstep =>
      rw [Leg.foldl_credited]
      show request.head = []
      have hrequest (hnil : x.request.head = []) : request.head = [] := by
        cases hact : a.act with
        | none =>
            rw [hact] at hreceive
            rw [← Option.some.inj hreceive]
            exact hnil
        | some act =>
            rw [hact] at hreceive
            have htakes := (Leg.receive_takes hreceive).head
            rw [hnil] at htakes
            exact (List.append_eq_nil_iff.mp htakes.symm).2
      by_cases hstart : x.server.pc = .start
      · cases Echo.step_moves hstep with
        | enter accepted => exact hrequest (List.isEmpty_iff.mp hhears)
        | callback => exact absurd hstart hpc
        | stopIdle => exact absurd hstart hpc
        | stopOp => exact absurd hstart hpc
        | submit accepted hidle hsubmit =>
            rw [hstart] at hsubmit
            cases hsubmit
        | read hread =>
            rw [hstart] at hread
            cases hread
        | write hop =>
            rw [hstart] at hop
            cases hop
      · exact hrequest (h hstart)

/-- A body comes from a provider, and so after a header block. -/
theorem Exchange.Inv.block_of_delivered {block : List (Bytes × Bytes)}
    (h : x.Inv up down block tr) (hne : delivered (atClient tr) ≠ []) :
    (atServer tr).flatMap EchoLabel.block ≠ [] := by
  have hpulled : pulled (onStream (atServer tr)) ≠ [] := by
    rw [h.response.body]
    simp [hne]
  obtain ⟨l, hl, hbytes⟩ : ∃ l ∈ onStream (atServer tr), l.pulledBytes ≠ [] := by
    by_contra hnone
    push Not at hnone
    exact hpulled (List.flatMap_eq_nil_iff.mpr hnone)
  refine Echo.block_of_submitted h.server ?_
  cases l with
  | pulled bytes eof => exact (Provider.detached_run (Echo.inv_run h.server).1.run hl).1
  | _ => exact absurd rfl hbytes

/-- The header block of the response is complete at the client before any of the
body is. -/
theorem Exchange.Inv.head_first {block : List (Bytes × Bytes)} {x' : Exchange}
    {os : List ExchangeLabel} {a : ExchangeAction} (h : x.Inv up down block tr)
    (h' : x'.Inv up down block (tr ++ os))
    (hfirst : delivered (atClient tr) ≠ [] → x.response.head = [])
    (hs : x.step up down a = some (x', os)) (hne : delivered (atClient (tr ++ os)) ≠ []) :
    x'.response.head = [] := by
  rw [atClient_append, delivered_append] at hne
  cases Exchange.step_moves hs with
  | client act client response ls hhears hadmits hreceive hstep =>
      rw [atClient_map_client,
        (Cell.step_emits (ReadSide.balance_run h.client).1 hstep).delivered] at hne
      rw [Leg.foldl_credited]
      show response.head = []
      have htakes := (Leg.receive_takes hreceive).head
      cases act with
      | onData data =>
          simp only [Leg.receive] at hreceive
          split at hreceive
          · rename_i hempty
            rw [List.isEmpty_iff.mp hempty] at htakes
            exact htakes.symm
          · cases hreceive
      | _ =>
          rw [hfirst (by simpa [Action.data] using hne)] at htakes
          exact (List.append_eq_nil_iff.mp htakes.symm).2
  | server a server request ls hhears hreceive hstep =>
      rw [atClient_map_server] at hne
      have hbefore : delivered (atClient tr) ≠ [] := by simpa [delivered] using hne
      have hblock := h.block_of_delivered hbefore
      have hsome : submits (atServer tr) ≠ [] := by
        intro hnil
        rw [block_submits, hnil] at hblock
        exact hblock rfl
      -- `echo` submits once
      have honce := (Echo.inv_run h'.server).1.once
      rw [atServer_append, atServer_map_server, submits_append, List.length_append] at honce
      have hpos := List.length_pos_of_ne_nil hsome
      have hnil : submits ls = [] := List.eq_nil_of_length_eq_zero (by omega)
      rw [Leg.foldl_answered_head, block_submits, hnil, hfirst hbefore]
      rfl
  | request a leg hcredit => exact hfirst (by simpa [delivered, atClient] using hne)
  | response a leg hcredit =>
      obtain ⟨ch, -, rfl⟩ := Option.map_eq_some_iff.mp hcredit
      exact hfirst (by simpa [delivered, atClient] using hne)

/-- An exchange that begins with a given request is about that request. -/
theorem Exchange.request_run (hn : ∀ n ∈ contentLength, n < 2 ^ 64)
    (hheaders : PlainHeaders headers)
    (run : (requestMachine up down path contentLength headers).Run clientReads tr x) :
    x.Inv up down (submitRequestFields path contentLength headers) tr ∧
      x.server.Answers contentLength (atServer tr) ∧
      (x.server.pc ≠ .start → x.request.head = []) ∧
      (delivered (atClient tr) ≠ [] → x.response.head = []) := by
  refine run.invariant (I := fun tr x =>
    x.Inv up down (submitRequestFields path contentLength headers) tr ∧
      x.server.Answers contentLength (atServer tr) ∧
      (x.server.pc ≠ .start → x.request.head = []) ∧
      (delivered (atClient tr) ≠ [] → x.response.head = [])) ?_ ?_
  · rintro x ⟨id, rfl⟩
    exact ⟨Exchange.inv_fresh up down id path contentLength headers,
      ⟨fun h => absurd rfl h, nofun⟩, fun h => absurd rfl h, fun h => absurd rfl h⟩
  · rintro tr x a x' os ⟨hinv, hanswers, hstarted, hfirst⟩ hok hs
    have hinv' := hinv.step hok hs
    refine ⟨hinv', ?_, Exchange.started_step hstarted hs, hinv.head_first hinv' hfirst hs⟩
    rw [atServer_append]
    cases Exchange.step_moves hs with
    | client act client response ls =>
        rw [atServer_map_client, List.append_nil]
        exact hanswers
    | request a leg hcredit =>
        rw [show atServer [] = [] from rfl, List.append_nil]
        exact hanswers
    | response a leg hcredit =>
        rw [show atServer [] = [] from rfl, List.append_nil]
        exact hanswers
    | server a server request ls hhears hreceive hstep =>
        rw [atServer_map_server]
        refine hanswers.step (fun accepted ha _ => ?_) hstep
        subst ha
        rw [hinv.head_whole hn hheaders (List.isEmpty_iff.mp hhears)]

/-- The header block that `echo` has answered with, if it has. -/
theorem Echo.Answers.block {e : Echo} {tr : List EchoLabel} (h : e.Answers contentLength tr)
    (hinv : e.Inv tr) : tr.flatMap EchoLabel.block = [] ∨
      tr.flatMap EchoLabel.block = Response.submit ⟨contentLength⟩ 200 [] := by
  rw [block_submits]
  have honce := hinv.once
  cases hlist : submits tr with
  | nil => exact .inl rfl
  | cons l rest =>
      obtain rfl : rest = [] := by
        rw [hlist, List.length_cons] at honce
        exact List.eq_nil_of_length_eq_zero (by omega)
      have hmem : l ∈ submits tr := by simp [hlist]
      obtain ⟨htr, hkind⟩ := List.mem_filter.mp hmem
      cases l with
      | stream l => cases hkind
      | submitted fields accepted =>
          rw [h.submitted fields accepted htr]
          cases accepted with
          | true => exact .inr (List.append_nil _)
          | false => exact .inl rfl

theorem answer_of_part (hn : ∀ n ∈ contentLength, n < 2 ^ 64) {fs : List (Bytes × Bytes)}
    (hpart : fs <+: Response.submit ⟨contentLength⟩ 200 []) {status : ℕ}
    (hstatus : statusOf fs = some status) :
    status = 200 ∧ (contentLengthOf fs = none ∨ contentLengthOf fs = contentLength) := by
  cases fs with
  | nil => cases hstatus
  | cons f fs =>
      obtain ⟨rfl, hrest⟩ := List.cons_prefix_cons.mp hpart
      rw [List.nil_append] at hrest
      have hplain : ∀ f ∈ fs, ¬IsPseudo f.1 := fun f hf =>
        contentLengthField_plain contentLength f (hrest.subset hf)
      obtain ⟨hs, hlength, -⟩ := block_prefix (stdToString 200) hplain
      rw [hs, parseStatus_stdToString (by decide)] at hstatus
      refine ⟨(Option.some.inj hstatus).symm, ?_⟩
      rw [hlength]
      -- the block goes on with one field at most
      cases fs with
      | nil => exact .inl rfl
      | cons f fs =>
          have hwhole : f :: fs = contentLengthField contentLength := by
            refine hrest.eq_of_length_le ?_
            cases contentLength <;> simp [contentLengthField]
          have hfield : contentLengthOf ([] ++ contentLengthField contentLength ++ []) =
              contentLength := contentLengthOf_field (by simp) (by simp) hn
          rw [List.nil_append, List.append_nil] at hfield
          rw [hwhole, hfield]
          exact .inr rfl

/-- The head of a request to `echo` and back, in every interleaving. `echo` sees the
request as it was submitted. Every `get_response()` that returns without an error says
200, and no content length other than that of the request. Once some of the body has
arrived, it says the content length of the request, too. -/
theorem exchange_head_round_trip (hn : ∀ n ∈ contentLength, n < 2 ^ 64)
    (hheaders : PlainHeaders headers)
    (run : (requestMachine up down path contentLength headers).Run clientReads tr x) :
    (x.server.pc ≠ .start → x.server.cell.stream.head.request =
        ⟨path, contentLength, contentLengthField contentLength ++ headers⟩) ∧
      (∀ i response, .responseReturned i none response ∈ atClient tr →
        response.status = 200 ∧
          (response.contentLength = none ∨ response.contentLength = contentLength)) ∧
      (delivered (atClient tr) ≠ [] → ∀ i, x.client.stream.head.answer i =
        .responseReturned i none ⟨200, contentLength, contentLengthField contentLength⟩) := by
  obtain ⟨hinv, hanswers, hstarted, hfirst⟩ := Exchange.request_run hn hheaders run
  have hblock := hanswers.block (Echo.inv_run hinv.server).1
  have hfields := hinv.response.head
  refine ⟨fun hpc => hinv.head_whole hn hheaders (hstarted hpc), fun i response hmem => ?_,
    fun hne i => ?_⟩
  · obtain ⟨pre, post, hsplit⟩ := List.append_of_mem hmem
    obtain ⟨hstatus, hlength, -⟩ := (Head.captured_run hinv.client).2 pre _ post hsplit
    have hpart : fields pre <+: Response.submit ⟨contentLength⟩ 200 [] := by
      have hbegins : fields pre <+: (atServer tr).flatMap EchoLabel.block := by
        rw [hfields, hsplit, fields_append, List.append_assoc]
        exact List.prefix_append _ _
      rcases hblock with hnil | hwhole
      · rw [hnil, List.prefix_nil] at hbegins
        rw [hbegins]
        exact List.nil_prefix
      · rwa [hwhole] at hbegins
    rw [hlength]
    exact answer_of_part hn hpart hstatus
  · rw [hfirst hne, List.append_nil, hblock.resolve_left (hinv.block_of_delivered hne)] at hfields
    exact (Head.answer_of_fields hinv.client (by decide) hn (by decide) hfields.symm).2 i

end Heads

/-- A request with a content length, answered while its body is on its way. -/
theorem exchange_head_round_trip_of_length :
    ∃ tr x, (requestMachine twoBytes twoBytes (ascii "/echo") (some 3)
        [(ascii "x-a", ascii "b")]).Run clientReads tr x ∧
      .responseReturned 0 none ⟨200, none, []⟩ ∈ atClient tr ∧
      delivered (atClient tr) = [1, 2] ∧
      x.client.stream.head.answer 1 = .responseReturned 1 none
        ⟨200, some 3, [(ascii "content-length", ascii "3")]⟩ := by
  obtain ⟨tr, x, run, hearly, hdelivered⟩ :
      ∃ tr x, (requestMachine twoBytes twoBytes (ascii "/echo") (some 3)
          [(ascii "x-a", ascii "b")]).Run clientReads tr x ∧
        .responseReturned 0 none ⟨200, none, []⟩ ∈ atClient tr ∧
        delivered (atClient tr) = [1, 2] :=
    Machine.run_of_exec
      (s := Exchange.fresh twoBytes twoBytes 1 (ascii "/echo") (some 3)
        [(ascii "x-a", ascii "b")]) ⟨1, rfl⟩
      [.client (.write (.write [[1, 2, 3]]) false), .client (.producerCallback 2),
        .client (.getResponse 0 false),
        .server (.callback (.onHeader (ascii ":method") (ascii "POST"))),
        .server (.callback (.onHeader (ascii ":scheme") (ascii "http"))),
        .server (.callback (.onHeader (ascii ":path") (ascii "/echo"))),
        .server (.callback (.onHeader (ascii ":authority") (ascii "localhost"))),
        .server (.callback (.onHeader (ascii "content-length") (ascii "3"))),
        .server (.callback (.onHeader (ascii "x-a") (ascii "b"))),
        .server (.go true), .server (.go true), .server (.callback (.onData [1, 2])),
        .server .resume, .server (.go true), .server (.go true),
        .server (.callback (.producerCallback 2)),
        .client (.onHeader (ascii ":status") (ascii "200")), .client (.resumeResponse 0),
        .client (.onHeader (ascii "content-length") (ascii "3")), .client (.onData [1, 2])]
      (by decide)
  have hall := exchange_head_round_trip (by simp) (by decide) run
  refine ⟨tr, x, run, hearly, hdelivered, ?_⟩
  rw [hall.2.2 (by simp [hdelivered]) 1]
  rfl

end Nghttp2Corosio
