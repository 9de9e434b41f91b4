/-
# Faults of the cloud provider

A single request can fail, the thing it names can be missing, or the service as a whole can
be away.
-/

namespace DeployWatch

/-- The failure of a request to the provider. -/
inductive CloudFault where
  /-- The provider, or the way to it, refused an operation. -/
  | request (operation message : String)
  /-- What the request names does not exist. -/
  | notFound (what : String)
  | unavailable (message : String)
  deriving DecidableEq, Repr, Inhabited

namespace CloudFault

/-- The fault in words. -/
def message : CloudFault → String
  | request operation message => operation ++ " request failed: " ++ message
  | notFound what => what ++ " does not exist"
  | unavailable message => "service unavailable: " ++ message

end CloudFault

end DeployWatch
