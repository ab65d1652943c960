import DataPlane.Headers.Params
import DataPlane.Headers.Annotations
import DataPlane.Headers.MachineInteger
import DataPlane.Cpex.Requests
import DataPlane.Gateway.Routing
import DataPlane.Gateway.Tracking
import DataPlane.Gateway.UpstreamHeaders
import DataPlane.Gateway.VirtualHosts
import DataPlane.Gateway.Answered
import DataPlane.Gateway.Guarded
import DataPlane.Gateway.Connection
import DataPlane.Gateway.Documented
import DataPlane.Gateway.Cancellation
import DataPlane.Store.Freshness
import DataPlane.Auth.Completeness
import DataPlane.Secrets.Monotone
import DataPlane.Secrets.Base64
import DataPlane.Secrets.Tokens
import DataPlane.Secrets.Factory
import DataPlane.Secrets.Audit
import DataPlane.Observability.OtlpHeaders
