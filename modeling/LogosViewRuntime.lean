import LogosViewRuntime.IntentRouters
import LogosViewRuntime.LoopbackOrder
import LogosViewRuntime.DesktopOnce
import LogosViewRuntime.WebHold
import LogosViewRuntime.WebMatch
import LogosViewRuntime.PortRecovery
import LogosViewRuntime.ViewReady
import LogosViewRuntime.ViewTeardown
import LogosViewRuntime.ViewCoherence
import LogosViewRuntime.PortDevice
import LogosViewRuntime.IntentName
import LogosViewRuntime.IntentPayload
import LogosViewRuntime.PendingWatch
import LogosViewRuntime.DesktopDeadline
import LogosViewRuntime.PortOwnership
import LogosViewRuntime.ServerAnnounce
import LogosViewRuntime.EventSubscriptions
import LogosViewRuntime.WebInstall
import LogosViewRuntime.LoopbackClose
import LogosViewRuntime.IntentFlatten
import LogosViewRuntime.WebDescribe
import LogosViewRuntime.TokenServer
import LogosViewRuntime.ReadyLines
import LogosViewRuntime.ViewIsolation
import LogosViewRuntime.Lib.Slots
import LogosViewRuntime.PortNames
import LogosViewRuntime.Lib.Traced
import LogosViewRuntime.PayloadBound
import LogosViewRuntime.LoopbackPrefix
import LogosViewRuntime.LoopbackLast
import LogosViewRuntime.DeviceLink
import LogosViewRuntime.LinkStream
import LogosViewRuntime.UiHost
import LogosViewRuntime.UiHostHandshake
import LogosViewRuntime.UiHostReady
import LogosViewRuntime.Lib.JsonText
import LogosViewRuntime.ErrorEnvelope
import LogosViewRuntime.WebAnswers
import LogosViewRuntime.DesktopAnswers
import LogosViewRuntime.EmscriptenPort
import LogosViewRuntime.EmscriptenHandles
import LogosViewRuntime.EmscriptenStream
import LogosViewRuntime.WebViews
import LogosViewRuntime.WebReady
import LogosViewRuntime.WebBackends
import LogosViewRuntime.WebOwners
import LogosViewRuntime.WebTeardown
import LogosViewRuntime.WebCalls
import LogosViewRuntime.ViewBackends
import LogosViewRuntime.IntentRefusal
import LogosViewRuntime.IntentOrder
import LogosViewRuntime.PendingEvents
import LogosViewRuntime.IntentEnvelope
import LogosViewRuntime.UiHostStop
