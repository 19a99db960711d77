/-
  Jrpxy.Proxy.HopByHop

  Header fields the proxy does not pass on, and those it adds.
-/
import Jrpxy.HttpMessage.Header

namespace Jrpxy.Proxy

open Ascii Util HttpMessage

/-- Headers that are always connection-scoped. -/
def hopByHopHeaders : List Bytes := [
  ascii "connection",
  ascii "keep-alive",
  ascii "proxy-authenticate",
  ascii "proxy-authorization",
  ascii "te",
  ascii "transfer-encoding",
  ascii "upgrade"]

def isStandardHopByHop (name : Bytes) : Bool := hopByHopHeaders.any fun h => eqIgnoreCase h name

def getConnectionTokens (headers : Headers) : Except ConnectionTokenParserError (List Bytes) :=
  collectTokens headers.connectionTokens

/-- Connection-scoped by definition, or named as an option of `Connection`. -/
def isHopByHop (name : Bytes) (connectionTokens : List Bytes) : Bool :=
  isStandardHopByHop name || connectionTokens.any fun t => eqIgnoreCase t name

/-- Remove all hop-by-hop headers. -/
def stripHopByHopHeaders (headers : Headers) (connectionTokens : List Bytes) : Headers :=
  headers.retain fun f => !isHopByHop f.1 connectionTokens

/-- Trailer fields that are stripped on top of the connection-scoped ones. -/
def forbiddenTrailerHeaders : List Bytes := [
  ascii "content-length",
  ascii "host",
  ascii "cache-control",
  ascii "expect",
  ascii "max-forwards",
  ascii "if-match",
  ascii "if-none-match",
  ascii "if-modified-since",
  ascii "if-unmodified-since",
  ascii "if-range",
  ascii "range",
  ascii "authorization",
  ascii "www-authenticate",
  ascii "set-cookie",
  ascii "cookie",
  ascii "age",
  ascii "expires",
  ascii "date",
  ascii "vary",
  ascii "location",
  ascii "content-encoding",
  ascii "content-type",
  ascii "content-range",
  ascii "content-location",
  ascii "trailer"]

/-- `name` must not be forwarded in a trailer section. -/
def isForbiddenTrailerField (name : Bytes) : Bool :=
  isStandardHopByHop name || forbiddenTrailerHeaders.any fun h => eqIgnoreCase h name

/-- Remove every forbidden field from a trailer section. -/
def sanitizeTrailers (trailers : Headers) : Headers :=
  trailers.retain fun f => !isForbiddenTrailerField f.1

/-- Inject a `Via` header. -/
def insertProxyHeaders (headers : Headers) (version : HttpVersion) (receivedBy : Bytes) :
    Headers :=
  let viaVersion := match version with
    | .http10 => ascii "1.0"
    | .http11 => ascii "1.1"
  headers.pushRaw (ascii "Via") (viaVersion ++ ascii " " ++ receivedBy)

/-- Inject a `Date` header with the time `now`, if none is present. -/
def insertDateHeaderIfAbsent (now : Bytes) (headers : Headers) : Headers :=
  if headers.getHeader (ascii "date") ≠ [] then headers else headers.pushRaw (ascii "Date") now

/-! ## What they leave -/

/-- Names equal up to case are connection-scoped alike. -/
theorem isStandardHopByHop_congr {a b : Bytes} (h : eqIgnoreCase a b = true) :
    isStandardHopByHop a = isStandardHopByHop b := by
  unfold isStandardHopByHop
  congr 1
  funext x
  rw [eqIgnoreCase_symm x, eqIgnoreCase_symm x]
  exact eqIgnoreCase_congr h x

theorem isHopByHop_congr {a b : Bytes} (h : eqIgnoreCase a b = true) (tokens : List Bytes) :
    isHopByHop a tokens = isHopByHop b tokens := by
  have htokens : (tokens.any fun t => eqIgnoreCase t a) = tokens.any fun t => eqIgnoreCase t b := by
    congr 1
    funext t
    rw [eqIgnoreCase_symm t, eqIgnoreCase_symm t]
    exact eqIgnoreCase_congr h t
  rw [isHopByHop, isHopByHop, isStandardHopByHop_congr h, htokens]

@[simp] theorem sanitizeTrailers_empty : sanitizeTrailers .empty = .empty := rfl

/-- A sanitized trailer section is part of the one it comes from. -/
theorem mem_of_mem_sanitizeTrailers {trailers : Headers} {f : Field}
    (h : f ∈ (sanitizeTrailers trailers).headers) : f ∈ trailers.headers :=
  (List.mem_filter.mp h).1

theorem sanitizeTrailers_valid {trailers : Headers} (h : trailers.Valid) :
    (sanitizeTrailers trailers).Valid := h.retain _

/-- No `Transfer-Encoding` and no `Connection` field survives the strip. -/
theorem strip_not_standard {headers : Headers} {tokens : List Bytes} {f : Field}
    (h : f ∈ (stripHopByHopHeaders headers tokens).headers) : isStandardHopByHop f.1 = false := by
  have hkept := (List.mem_filter.mp h).2
  simp only [isHopByHop, Bool.not_eq_true', Bool.or_eq_false_iff] at hkept
  exact hkept.1

theorem strip_valid {headers : Headers} (h : headers.Valid) (tokens : List Bytes) :
    (stripHopByHopHeaders headers tokens).Valid := h.retain _

/-- The fields of one name are stripped all or not at all. -/
theorem strip_getHeader (headers : Headers) (tokens : List Bytes) (name : Bytes) :
    (stripHopByHopHeaders headers tokens).getHeader name =
      if isHopByHop name tokens then [] else headers.getHeader name := by
  have hsame : ∀ f ∈ headers.headers, eqIgnoreCase name f.1 = true →
      isHopByHop f.1 tokens = isHopByHop name tokens :=
    fun f _ hf => (isHopByHop_congr hf tokens).symm
  rw [Headers.getHeader, Headers.getHeader, stripHopByHopHeaders, Headers.retain,
    List.filter_filter]
  cases hname : isHopByHop name tokens with
  | true =>
    rw [if_pos rfl, List.filter_eq_nil_iff]
    intro f hf hboth
    rw [Bool.and_eq_true] at hboth
    rw [hsame f hf hboth.1, hname] at hboth
    cases hboth.2
  | false =>
    rw [if_neg Bool.false_ne_true]
    apply List.filter_congr
    intro f hf
    cases hcase : eqIgnoreCase name f.1 with
    | false => rfl
    | true =>
      rw [hsame f hf hcase, hname]
      rfl

/-- `Via` is the only field that is added. -/
theorem insertProxyHeaders_getHeader (headers : Headers) (version : HttpVersion)
    (receivedBy : Bytes) {name : Bytes} (h : eqIgnoreCase name (ascii "Via") = false) :
    (insertProxyHeaders headers version receivedBy).getHeader name = headers.getHeader name := by
  unfold insertProxyHeaders
  rw [Headers.pushRaw, Headers.getHeader, List.filter_append,
    List.filter_cons_of_neg (by simp [h]), List.filter_nil, List.append_nil, Headers.getHeader]

end Jrpxy.Proxy
