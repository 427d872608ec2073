import DaxiangVpn.DeviceAuthRestore
import DaxiangVpn.DeviceAuthScheduler
import DaxiangVpn.DeviceAuthResurrection
import DaxiangVpn.DeviceAuthProvenance
import DaxiangVpn.DeviceAuthVerified
import DaxiangVpn.DeviceAuthHistory
import DaxiangVpn.StripedRelay
import DaxiangVpn.EngineActions
import DaxiangVpn.EngineCapture
import DaxiangVpn.SignedTexts
import DaxiangVpn.GatedServiceFreshness
import DaxiangVpn.TokenLeases
import DaxiangVpn.EgressRotation
import DaxiangVpn.HttpAdmissionBooks
import DaxiangVpn.DeviceAuthPlanRuns
import DaxiangVpn.ProxyGatePolicy
import DaxiangVpn.UpdateSemver
import DaxiangVpn.UpdateClientRuns
import DaxiangVpn.SecureListenerRuns
import DaxiangVpn.HandshakeRelaySafety
import DaxiangVpn.DeviceClientRuns
import DaxiangVpn.DeviceClientFloor
import DaxiangVpn.ProxyJournal
import DaxiangVpn.ProxySlotRuns
import DaxiangVpn.HttpSource
