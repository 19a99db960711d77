/-
  Jrpxy.Proxy.Messages

  Messages on a wire, read from the left in one way.

  Whoever reads a connection finds the messages that were written to it: a
  written head is a whole head (`isHead_written`), no whole head is the
  beginning of another (`IsHead.unique`), and where a head announces the end of
  its body no body is the beginning of another (`Carries.front_unique`).
-/
import Jrpxy.Body.Content
import Jrpxy.Frontend.Stream
import Jrpxy.Frontend.WrittenHead
import Jrpxy.Httparse.WrittenResponse
import Jrpxy.Backend.Stream

namespace Jrpxy

open Poll Incremental ChunkedCoding Ascii Util HttpMessage Body Body.Reader
open ParseSlots (buffered buffered_asBytes buffered_unread)
open Frontend (responseHead)

variable {h : Httparse} {slots : ParseSlots} {head head' rest rest' : Bytes}

/-! ## Bodies -/

/-- Of two bodies in front of one stream neither is the beginning of the other, and they carry
    the same, unless they end with the connection. -/
theorem Body.Carries.front_unique (hsize : h.ChunkSizeLaws) (hfields : h.FieldSectionLaws)
    {body body' content content' : Bytes} {trailers trailers' : Headers} {length : BodyLength}
    (hcarries : Carries h body content trailers length)
    (hcarries' : Carries h body' content' trailers' length)
    (hsame : body ++ rest = body' ++ rest') (hends : length ≠ .untilClose) :
    body = body' ∧ content = content' ∧ trailers = trailers' := by
  have hbody : body = body' := by
    cases length with
    | none => exact hcarries.1.trans hcarries'.1.symm
    | length n => exact List.append_inj_left hsame (hcarries.2.1.trans hcarries'.2.1.symm)
    -- decoding the stream finds the end of either
    | chunked =>
      obtain ⟨least, hslots⟩ := hcarries
      obtain ⟨least', hslots'⟩ := hcarries'
      let slots : ParseSlots := ⟨max least least'⟩
      have hlawful := recognisers_lawful hsize hfields slots
      obtain ⟨-, n, htail⟩ := hslots slots (Nat.le_max_left _ _)
      obtain ⟨-, n', htail'⟩ := hslots' slots (Nat.le_max_right _ _)
      have hdecode := congrArg Decoded.tail (decode_append hlawful htail rest)
      have hdecode' := congrArg Decoded.tail (decode_append hlawful htail' rest')
      rw [Decoded.append_tail, htail] at hdecode
      rw [Decoded.append_tail, htail', ← hsame, hdecode] at hdecode'
      cases hdecode'
      exact List.append_cancel_right hsame
    | untilClose => exact absurd rfl hends
    | invalid => exact hcarries.elim
  subst hbody
  exact ⟨rfl, hcarries.unique hcarries'⟩

/-! ## Request heads -/

namespace Frontend

/-- Two whole heads in front of one stream are one. -/
theorem IsHead.unique (laws : h.RequestLaws) {req req' : Request} (hhead : IsHead h slots head req)
    (hhead' : IsHead h slots head' req') (hsame : head ++ rest = head' ++ rest') :
    head = head' ∧ req = req' := by
  obtain ⟨p, version, hp, hv, rfl⟩ := (isHead_iff laws).mp hhead
  obtain ⟨p', version', hp', hv', rfl⟩ := (isHead_iff laws).mp hhead'
  obtain ⟨rfl, rfl⟩ := (laws.parser slots.slotCount).complete_unique hp hp' hsame
  cases hv.symm.trans hv'
  exact ⟨rfl, rfl⟩

/-- A head that is written with valid parts is a whole head. -/
theorem isHead_written (laws : h.RequestLaws) {method path : Bytes} {fs : List Field}
    (hmethod : isValidFieldName method = true) (htarget : h.IsTarget path)
    (hvalid : Headers.Valid ⟨fs⟩) (hslots : fs.length ≤ slots.slotCount) :
    IsHead h slots (Httparse.requestHead method path (ascii "HTTP/1.1") fs)
      ⟨method, path, .http11, ⟨fs.map readBack⟩⟩ := by
  obtain ⟨p, hp, hpmethod, hppath, hversion, hfields⟩ :=
    laws.complete hmethod htarget hvalid hslots []
  rw [List.append_nil] at hp
  refine (isHead_iff laws).mpr ⟨p, .http11, hp, ?_, ?_⟩
  · rw [hversion]
    rfl
  · rw [hpmethod, hppath, hfields]
    rfl

end Frontend

/-! ## Response heads -/

namespace Backend

/-- A response head is returned with its reason phrase. -/
theorem IsHead.reason (laws : h.ResponseLaws) {res : Response} (hhead : IsHead h slots head res) :
    Httparse.asciiReason head = some res.reason := by
  obtain ⟨p, version, hp, hv, hwithin, rfl⟩ := hhead.parts laws
  cases hreason : Httparse.asciiReason head with
  | some phrase =>
    obtain ⟨-, hbytes⟩ := laws.reason hp hreason
    rw [← hbytes]
  -- the static empty string is no part of the head
  | none =>
    obtain ⟨houtside, -⟩ := laws.static hp hreason
    obtain ⟨hpos, hle, -⟩ := hwithin
    rcases houtside with hbefore | hbehind
    · omega
    · omega

/-- Two whole heads in front of one stream are one. -/
theorem IsHead.unique (laws : h.ResponseLaws) (headLaws : h.ResponseHeadLaws)
    {res res' : Response} (hhead : IsHead h slots head res) (hhead' : IsHead h slots head' res')
    (hsame : head ++ rest = head' ++ rest') : head = head' ∧ res = res' := by
  obtain ⟨p, version, hp, hv, -, rfl⟩ := hhead.parts laws
  obtain ⟨p', version', hp', hv', -, rfl⟩ := hhead'.parts laws
  obtain ⟨rfl, rfl⟩ := (headLaws.parser slots.slotCount).complete_unique hp hp' hsame
  cases hv.symm.trans hv'
  exact ⟨rfl, rfl⟩

/-- With more slots than it needs a head is the same. -/
theorem IsHead.more (laws : h.ResponseLaws) (slotLaws : h.ResponseSlotLaws) {res : Response}
    (hhead : IsHead h slots head res) (k : Nat) : IsHead h ⟨slots.slotCount + k⟩ head res := by
  obtain ⟨p, version, hp, hv, hwithin, rfl⟩ := hhead.parts laws
  have hmore := slotLaws.more_slots hp k
  rw [← buffered_asBytes head] at hmore
  obtain ⟨r, hok, hsplit⟩ := ParseSlots.parseResponse_complete laws hmore hv
    (by rw [buffered_asBytes, List.take_length]; exact hwithin)
  refine ⟨r, hok, ?_⟩
  rw [BytesReader.unread_eq_drop_of_splitTo hsplit, buffered_unread, buffered_asBytes,
    List.drop_length]

/-- The reason phrase of a written head. -/
theorem asciiReason_written {code : Nat} {reason : Bytes} (hlow : 100 ≤ code) (hhigh : code ≤ 999)
    (hreason : isValidFieldValue reason = true) (hascii : reason.all (· < 128) = true)
    (fs : List Field) : Httparse.asciiReason (responseHead code reason fs) = some reason := by
  have hshape := Httparse.Reference.responseHead_shape hlow hhigh reason fs []
  rw [List.append_nil, List.append_nil, List.append_assoc] at hshape
  rw [hshape]
  have hphrase := @Httparse.Reference.asciiReason_phrase 49 (digit (code / 100))
    (digit (code / 10 % 10)) (digit (code % 10)) 13 rfl (isDigit_digit (by omega))
    (isDigit_digit (by omega)) (isDigit_digit (by omega)) reason
    (isValidFieldValue_iff.mp hreason) rfl ([10] ++ (fieldLines fs ++ ascii "\r\n"))
  rw [if_pos hascii] at hphrase
  exact hphrase

/-- A head that is written with a code of three digits and valid parts is a whole head. -/
theorem isHead_written (laws : h.ResponseLaws) (written : h.WrittenResponseLaws) {code : Nat}
    {reason : Bytes} {fs : List Field} (hlow : 100 ≤ code) (hhigh : code ≤ 999)
    (hreason : isValidFieldValue reason = true) (hascii : reason.all (· < 128) = true)
    (hvalid : Headers.Valid ⟨fs⟩) (hslots : fs.length ≤ slots.slotCount) :
    IsHead h slots (responseHead code reason fs)
      ⟨.http11, code, reason, ⟨fs.map readBack⟩⟩ := by
  obtain ⟨p, hp, hversion, hcode, hfields⟩ :=
    written.complete hlow hhigh hreason hascii hvalid hslots []
  rw [List.append_nil] at hp
  obtain ⟨hwithin, hbytes⟩ := laws.reason hp (asciiReason_written hlow hhigh hreason hascii fs)
  have hv : HttpVersion.tryFrom p.version = .ok .http11 := by
    rw [hversion]
    rfl
  have hbuffered : (buffered (responseHead code reason fs)).asBytes = responseHead code reason fs :=
    buffered_asBytes _
  rw [← hbuffered] at hp
  obtain ⟨r, hok, hsplit⟩ := ParseSlots.parseResponse_complete laws hp hv (by
    rw [hbuffered]
    exact hwithin)
  refine ⟨r, ?_, ?_⟩
  · rw [hok, hcode, hbytes, hfields]
    rfl
  · rw [BytesReader.unread_eq_drop_of_splitTo hsplit, buffered_unread, buffered_asBytes]
    exact List.drop_length

end Backend

end Jrpxy
