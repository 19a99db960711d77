/-
  Jrpxy.Proxy.Retry

  A request that is sent to one backend after the other.

  A backend that does not take the head of a request has a beginning of it on
  its connection and nothing else: the pieces of a head go out in order, and
  the body is not begun before the head is flushed (`forward_begins`).  The
  request is handed back as it was, and the next backend is tried with it.  So
  one backend at most has the request as a whole, and on the connections that
  are given up no request can be read, unless all that failed was the flush
  (`tryBackends_once`).
-/
import Mathlib.Data.List.Forall2
import Jrpxy.Proxy.Hops
import Jrpxy.Proxy.Refusal

namespace Jrpxy.Proxy

open Poll PullStream BodyRelay BlockWriter ChunkedCoding Ascii Util HttpMessage
open Body Body.Reader Body.Writer Frontend Backend

open Httparse.Reference (reference chunkSizeLaws fieldSectionLaws requestLaws targetLaws
  requestSlotLaws)

variable {h : Httparse}

/-! ## What a write leaves on the wire -/

/-- Some beginning of these bytes has gone out. -/
def Begins (buf : Bytes) (s s' : Sink) : Prop :=
  ∃ begun left, buf = begun ++ left ∧ s'.wire = s.wire ++ begun

theorem Begins.nothing {s s' : Sink} (buf : Bytes) (hwire : s'.wire = s.wire) : Begins buf s s' :=
  ⟨[], buf, rfl, hwire.trans (List.append_nil _).symm⟩

/-- A beginning of a part is a beginning of the whole. -/
theorem Begins.append {buf : Bytes} {s s' : Sink} (hbegins : Begins buf s s') (rest : Bytes) :
    Begins (buf ++ rest) s s' := by
  obtain ⟨begun, left, rfl, hwire⟩ := hbegins
  exact ⟨begun, left ++ rest, List.append_assoc _ _ _, hwire⟩

/-- What comes behind a part begins behind the part. -/
theorem Begins.behind {buf rest : Bytes} {s s' s'' : Sink} (hwire : s'.wire = s.wire ++ buf)
    (hbegins : Begins rest s' s'') : Begins (buf ++ rest) s s'' := by
  obtain ⟨begun, left, rfl, hwire'⟩ := hbegins
  exact ⟨buf ++ begun, left, (List.append_assoc _ _ _).symm,
    by rw [hwire', hwire, List.append_assoc]⟩

/-- A write that waits or fails leaves the wire alone, and any other sends what it says. -/
theorem blockOn_pollWrite_wire (buf : Bytes) (fuel : Nat) (s : Sink) :
    Meets (blockOn (fun sink => sink.pollWrite buf) fuel s) {
      pending := fun s' => s'.wire = s.wire
      ok := fun n s' => s'.wire = s.wire ++ buf.take n
      err := fun _ s' => s'.wire = s.wire } := by
  refine blockOn_meets rfl ?_ fuel rfl
  intro s' hwire
  refine (Sink.pollWrite_meets buf s').mono (fun _ hsame => ?_) (fun n _ hsent => ?_)
    (fun _ _ hsame => ?_)
  · exact hsame.1.trans hwire
  · show _ = s.wire ++ buf.take n
    rw [hsent.2.1, hwire]
  · exact hsame.1.trans hwire

theorem writeAllLoop_begins (fuel : Nat) (buf : Bytes) (s : Sink) :
    Begins buf s (writeAllLoop fuel buf s).2 := by
  induction fuel generalizing buf s with
  | zero => exact .nothing buf rfl
  | succ fuel ih =>
    rw [writeAllLoop]
    split
    · exact .nothing buf rfl
    · have hpoll := blockOn_pollWrite_wire buf (s.weight + 1) s
      generalize blockOn (fun sink => sink.pollWrite buf) (s.weight + 1) s = x at hpoll
      obtain ⟨_ | n | e | _, s'⟩ := x
      · exact .nothing buf hpoll
      · have hsplit : buf.take n ++ buf.drop n = buf := List.take_append_drop n buf
        have hbehind : ∀ {s''}, Begins (buf.drop n) s' s'' → Begins buf s s'' := by
          intro s'' hrest
          have hwhole := Begins.behind hpoll hrest
          rw [hsplit] at hwhole
          exact hwhole
        dsimp only [andThen_ok]
        split
        · exact hbehind (.nothing _ rfl)
        · exact hbehind (ih (buf.drop n) s')
      · exact .nothing buf hpoll
      · exact hpoll.elim

theorem flush_wire (s : Sink) : (flush s).2.wire = s.wire := by
  refine blockOn_kept (K := fun s' : Sink => s'.wire = s.wire) ?_ _ rfl
  intro s' hwire
  exact (Sink.pollFlush_meets s').state (fun _ hsame => hsame.1.trans hwire)
    (fun _ _ hsame => hsame.1.trans hwire) (fun _ _ hsame => hsame.1.trans hwire)

/-- Pieces go out one behind the other, as far as they do. -/
theorem writePieces_begins (pieces : List Bytes) (s : Sink) :
    Begins pieces.flatten s (writePieces pieces s).2 := by
  induction pieces generalizing s with
  | nil => exact .nothing _ (flush_wire s)
  | cons piece pieces ih =>
    have hmeets := writeAll_meets piece s
    have hbegins : Begins piece s (writeAll piece s).2 := writeAllLoop_begins _ piece s
    rw [writePieces, List.flatten_cons]
    generalize writeAll piece s = x at hmeets hbegins
    obtain ⟨_ | _ | e | _, s'⟩ := x
    · exact hbegins.append _
    · exact .behind hmeets.wire (ih s')
    · exact hbegins.append _
    · exact hbegins.append _

/-- The head a request is forwarded with. -/
def BackendProxyRequest.head (self : BackendProxyRequest) : Bytes :=
  Httparse.requestHead self.request.method self.request.path (ascii "HTTP/1.1")
    (Backend.writtenFields self.request (requestFraming self.bodyReader))

/-- Whatever it comes to, `forward` sends a beginning of the head and nothing else. -/
theorem BackendProxyRequest.forward_begins (self : BackendProxyRequest)
    (backendConnection : BackendReader × BackendWriter) :
    Begins self.head backendConnection.2.writer (self.forward backendConnection).2 := by
  have hhead : Begins self.head backendConnection.2.writer
      (writeRequestTo self.request (requestFraming self.bodyReader)
        backendConnection.2.writer).2 := by
    have hbegins := writePieces_begins
      ([self.request.method, ascii " ", self.request.path, ascii " ", ascii "HTTP/1.1",
        ascii "\r\n"] ++
        ((self.request.headers.iter.filter fun f => !isFramingHeader f.1).flatMap headerPieces ++
          framingPieces (requestFraming self.bodyReader) ++ [ascii "\r\n"]))
      backendConnection.2.writer
    rw [List.flatten_append, flatten_fieldPieces] at hbegins
    simpa [head, Httparse.requestHead, Backend.writtenFields, List.append_assoc,
      writeRequestTo] using hbegins
  rw [forward_eq]
  generalize writeRequestTo self.request _ backendConnection.2.writer = x at hhead
  obtain ⟨_ | _ | e | _, s⟩ := x
  · exact hhead
  · exact hhead
  · exact hhead
  · exact hhead

/-! ## What can be read of it -/

/-- No request is read where a whole head stops early. -/
theorem FrontendReader.read_ne_ok_of_begun (laws : h.RequestLaws) (slotLaws : h.RequestSlotLaws)
    {head begun left : Bytes} {req : Request} {n : Nat}
    (hhead : ∀ slots : ParseSlots, n ≤ slots.slotCount → IsHead h slots head req)
    (hsplit : head = begun ++ left) (hleft : left ≠ []) {self : FrontendReader}
    (hunread : self.reader.unread = begun) (maxHead maxLine : Nat) (out : FrontendRequest) :
    self.read h maxHead maxLine ≠ .ok out := by
  intro hread
  obtain ⟨head', r, -, -, hfound, hhead', -⟩ := FrontendReader.read_found laws hread
  obtain ⟨p, version, hp, hversion, hreq⟩ := (isHead_iff laws).mp hhead'
  -- with slots for the fields of both, both are the head in front of the same bytes
  let slots : ParseSlots := ⟨self.parseSlots.slotCount + n⟩
  have hread' : IsHead h slots head' out.req :=
    (isHead_iff laws).mpr ⟨p, version, slotLaws.more_slots hp _, hversion, hreq⟩
  have hsame : head' ++ (r.unread ++ left) = head ++ [] := by
    rw [← List.append_assoc, ← hfound, hunread, List.append_nil, hsplit]
  obtain ⟨rfl, -⟩ := hread'.unique laws (hhead slots (Nat.le_add_left _ _)) hsame
  have hnil : r.unread ++ left = [] := List.append_cancel_left hsame
  exact hleft (List.append_eq_nil_iff.mp hnil).2

/-- What a backend that did not take a request has of it: a beginning of its head, of which
    no one reads a request unless it is all of it. -/
def Untaken (h : Httparse) (head : Bytes) (sink s : Sink) : Prop :=
  ∃ begun left, head = begun ++ left ∧ s.wire = sink.wire ++ begun ∧
    (left ≠ [] → ∀ (self : FrontendReader) (maxHead maxLine : Nat) (out : FrontendRequest),
      self.reader.unread = begun → self.read h maxHead maxLine ≠ .ok out)

/-! ## One backend after the other -/

/-- Try the backends in turn, each with the request that the one before it handed back: the
    sinks of those that failed, and what the first that took it goes on with. -/
def BackendProxyRequest.tryBackends (self : BackendProxyRequest) :
    List (BackendReader × BackendWriter) →
      List Sink × Except BackendProxyRequest (BackendProxyResponseReader × Sink)
  | [] => ([], .error self)
  | backendConnection :: others =>
    match self.forward backendConnection with
    | (.ok out, sink) => ([], .ok (out, sink))
    | (.err e, sink) =>
      let (failed, answer) := e.intoBackendRequest.tryBackends others
      (sink :: failed, answer)
    | (.pending, sink) => ([sink], .error self)
    | (.panic, sink) => ([sink], .error self)

/-- Those that failed have a beginning of the head each, and behind them comes the one that
    took the request, unless there is none. -/
theorem BackendProxyRequest.tryBackends_split (self : BackendProxyRequest)
    (backends : List (BackendReader × BackendWriter)) :
    ∃ failed others, backends = failed ++ others ∧
      List.Forall₂ (fun backend s => Begins self.head backend.2.writer s ∧
        ¬ backend.2.writer.Accepting) failed (self.tryBackends backends).1 ∧
      (others = [] ∧ (self.tryBackends backends).2 = .error self ∨
        ∃ backend rest out s, others = backend :: rest ∧
          (self.tryBackends backends).2 = .ok (out, s) ∧ self.forward backend = (.ok out, s)) := by
  induction backends with
  | nil => exact ⟨[], [], rfl, .nil, .inl ⟨rfl, rfl⟩⟩
  | cons backend rest ih =>
    have hmeets := self.forward_meets backend
    have hbegins := self.forward_begins backend
    rw [tryBackends]
    rcases hforward : self.forward backend with ⟨_ | out | e | _, s⟩
    all_goals rw [hforward] at hmeets hbegins
    · exact hmeets.elim
    · exact ⟨[], _, rfl, .nil, .inr ⟨backend, rest, out, s, rfl, rfl, hforward⟩⟩
    · obtain ⟨failed, others, hsplit, hfailed, hothers⟩ := ih
      have hkept : e.intoBackendRequest = self := forward_error hforward
      dsimp only
      rw [hkept]
      exact ⟨backend :: failed, others, congrArg _ hsplit, .cons ⟨hbegins, hmeets⟩ hfailed,
        hothers⟩
    · exact hmeets.elim

/-- The head an accepted request is forwarded with is whole, for whoever has slots for its
    fields. -/
theorem forwarded_isHead (laws : h.RequestLaws) (targets : h.TargetLaws) {reader : FrontendReader}
    {maxHead maxLine : Nat} {request : FrontendRequest}
    (hread : reader.read h maxHead maxLine = .ok request) {writer : FrontendWriter}
    {options : ProxyOptions} {accepted : FrontendProxyRequest}
    (haccepted : FrontendProxyRequest.Accepted request writer options accepted) :
    ∃ n req, ∀ slots : ParseSlots, n ≤ slots.slotCount →
      Frontend.IsHead h slots accepted.intoBackendRequest.head req := by
  obtain ⟨hwf, -⟩ := Frontend.read_ok laws hread
  obtain ⟨hheaders, -⟩ := forwardedFields_valid targets hwf haccepted
  have hreq : accepted.frontend.req = _ := haccepted.req
  have hmethod : accepted.intoBackendRequest.request.method = request.req.method := by
    show accepted.frontend.req.method = _
    rw [hreq]
  have hpath : accepted.intoBackendRequest.request.path = normalizedPath request.req.path := by
    show accepted.frontend.req.path = _
    rw [hreq]
  exact ⟨_, _, fun slots hslots => Frontend.isHead_written laws (hmethod ▸ hwf.method)
    (hpath ▸ isTarget_normalizedPath laws hwf.path) (Backend.writtenFields_valid hheaders _)
    hslots⟩

/-- This backend took the request: when its body is finished, after whatever calls, one
    request is on the connection. -/
structure Taken (h : Httparse) (request : FrontendRequest)
    (backend : BackendReader × BackendWriter) (out : BackendProxyResponseReader) (sink : Sink) :
    Prop where
  reader : out.backendReader = backend.1
  one : ∀ acts fuel result s', RequestBodyForwarder.finish h fuel
    ((Run.mk (out.bodyForwarder h sink) none).acts acts).2.relay = (.ok result, s') →
    OneRequestOn h request backend.2.writer s'

/-- Of these backends one at most takes the request, and has it once.  Those before it did not
    accept what was written, and have a beginning of the head and not a byte of the body; those
    behind it are not written to.  If none takes it, the request is as it was. -/
def SentOnce (h : Httparse) (request : FrontendRequest) (self : BackendProxyRequest)
    (backends : List (BackendReader × BackendWriter)) : Prop :=
  ∃ failed others, backends = failed ++ others ∧
    List.Forall₂ (fun backend s => Untaken h self.head backend.2.writer s ∧
      ¬ backend.2.writer.Accepting) failed (self.tryBackends backends).1 ∧
    (others = [] ∧ (self.tryBackends backends).2 = .error self ∨
      ∃ backend rest out s, others = backend :: rest ∧
        (self.tryBackends backends).2 = .ok (out, s) ∧ Taken h request backend out s)

/-- However many backends an accepted request is tried on, and whatever each of them accepts,
    it is sent once. -/
theorem tryBackends_once (hsize : h.ChunkSizeLaws) (hfields : h.FieldSectionLaws)
    (laws : h.RequestLaws) (targets : h.TargetLaws) (slotLaws : h.RequestSlotLaws)
    {reader : FrontendReader} {maxHead maxLine : Nat} {request : FrontendRequest}
    (hread : reader.read h maxHead maxLine = .ok request) {writer : FrontendWriter}
    {options : ProxyOptions} {accepted : FrontendProxyRequest}
    (hfrom : FrontendProxyRequest.fromRequest request writer options = .ok accepted)
    (hpos : 1 ≤ options.bodyChunkSize) (hword : options.bodyChunkSize < 2 ^ 64)
    (backends : List (BackendReader × BackendWriter)) :
    SentOnce h request accepted.intoBackendRequest backends := by
  have haccepted := FrontendProxyRequest.fromRequest_ok hfrom
  obtain ⟨n, req, hhead⟩ := forwarded_isHead laws targets hread haccepted
  obtain ⟨failed, others, hsplit, hfailed, hothers⟩ :=
    accepted.intoBackendRequest.tryBackends_split backends
  refine ⟨failed, others, hsplit, hfailed.imp ?_, ?_⟩
  -- a connection that is given up
  · rintro backend s ⟨⟨begun, left, hparts, hwire⟩, hacc⟩
    refine ⟨⟨begun, left, hparts, hwire, ?_⟩, hacc⟩
    intro hleft self maxHead maxLine out hunread
    exact FrontendReader.read_ne_ok_of_begun laws slotLaws hhead hparts hleft hunread maxHead
      maxLine out
  · rcases hothers with hnone | ⟨backend, rest, out, s, hbackend, hanswer, hok⟩
    · exact .inl hnone
    -- the connection that is gone on with
    · refine .inr ⟨backend, rest, out, s, hbackend, hanswer, ?_, ?_⟩
      · obtain ⟨rfl, -⟩ := BackendProxyRequest.forward_ok hok
        rfl
      · intro acts fuel result s' hfinish
        obtain ⟨hrun, hsends⟩ := forwarded_start haccepted hok
        rw [hrun] at hfinish
        have hdelivered : Delivered requestSide h request.reader (requestWriter request.reader) s
            s' := delivered_of_value _ hfinish fun a s'' hx =>
          Side.delivered hsize hfields requestSide_lawful hpos hword
            (request_paired (FrontendReader.read_fresh laws hread)) acts fuel hx
        exact oneRequestOn_of_delivered hsize hfields laws targets hread haccepted hsends
          hdelivered

/-- A backend that accepts five bytes and fails. -/
def brokenBackend : BackendReader × BackendWriter :=
  (⟨.new ⟨[]⟩, ⟨4⟩⟩, ⟨⟨[], [.accept 2, .pending, .accept 3, .error .writeZero]⟩⟩)

theorem tryBackends_once_broken :
    SentOnce reference wholeRequest
      (wholeFromRequest.get wholeFromRequest_isOk).intoBackendRequest
      [brokenBackend, slowBackend] :=
  tryBackends_once chunkSizeLaws fieldSectionLaws requestLaws targetLaws requestSlotLaws
    (Polled.eq_ok_get wholeRead_isOk)
    (Polled.ofExcept_eq_ok.mp (Polled.eq_ok_get wholeFromRequest_isOk)) (by decide) (by decide) _

end Jrpxy.Proxy
