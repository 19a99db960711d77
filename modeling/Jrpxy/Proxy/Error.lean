/-
  Jrpxy.Proxy.Error

  Errors encountered by the proxy.
-/
import Jrpxy.Frontend.Reader
import Jrpxy.Backend.Reader

namespace Jrpxy.Proxy

open HttpMessage Frontend Backend

/-- An error while interacting with the frontend. -/
inductive ProxyFrontendError where
  | connectNotSupported
  | traceNotSupported
  | optionsNotSupported
  | frontendError (e : FrontendError)
  | invalidConnectionHeader (e : ConnectionTokenParserError)
  | malformedRequestTarget
  | asteriskFormNotAllowed
  | authorityFormNotAllowed
  | missingHost
  | multipleHosts
  deriving DecidableEq, Repr

/-- An error while interacting with the backend. -/
inductive ProxyBackendError where
  | backendError (e : BackendError)
  | invalidConnectionHeader (e : ConnectionTokenParserError)
  deriving DecidableEq, Repr

/-- An error while copying bodies between frontend and backend. -/
inductive ProxyCopyError where
  | frontendError (e : ProxyFrontendError)
  | backendError (e : ProxyBackendError)
  | forwardAfterError
  | frontendCopyIncomplete
  | backendCopyIncomplete
  deriving DecidableEq, Repr

/-- `From<FrontendError>` -/
def ProxyCopyError.ofFrontendError (e : FrontendError) : ProxyCopyError :=
  .frontendError (.frontendError e)

/-- `From<BackendError>` -/
def ProxyCopyError.ofBackendError (e : BackendError) : ProxyCopyError :=
  .backendError (.backendError e)

/-- Errors encountered by the proxy. -/
inductive ProxyError where
  | invalidRequestFraming (e : HeaderError)
  | copyError (e : ProxyCopyError)
  deriving DecidableEq, Repr

/-- `From<ProxyFrontendError>` -/
def ProxyError.ofFrontendError (e : ProxyFrontendError) : ProxyError :=
  .copyError (.frontendError e)

end Jrpxy.Proxy
