import Upnp.UrlObjects
import Upnp.QueryHistory
import Upnp.QueryStop
import Upnp.Decode
import Upnp.SoapText
import Upnp.Requests
import Upnp.ControlUrl
import Upnp.Reorder
import Upnp.Rendering
import Upnp.Listing
import Upnp.SignedNumber
import Upnp.WholeField
import Upnp.MSearch
import Upnp.SparedPrefixes
import Upnp.DeviceTree
import Upnp.ConditionVariable
import Upnp.CancelFiring
import Upnp.ConsumeUntil
import Upnp.ReadEndpoint
import Upnp.QueryWaits
import Upnp.DiscoveryFault
import Upnp.DiscoveryEnd
import Upnp.DiscoveryStart
import Upnp.OperationsCancel
import Upnp.OperationsStop
import Upnp.MappingTable
import Upnp.DiscoverySession
import Upnp.QueryChannel
import Upnp.CancelCounts
import Upnp.WaitsCancel
import Upnp.CancelOrder
