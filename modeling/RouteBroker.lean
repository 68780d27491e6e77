import RouteBroker.Circleq
import RouteBroker.System
import RouteBroker.Feed
import RouteBroker.Broker
import RouteBroker.BrokerQueue
import RouteBroker.BrokerOrder
import RouteBroker.BrokerRun
import RouteBroker.BrokerWrap
import RouteBroker.BrokerView
import RouteBroker.BrokerTombstone
import RouteBroker.BrokerDelivery
import RouteBroker.Route
import RouteBroker.RouteStore
import RouteBroker.RouteRun
import RouteBroker.RouteHash
import RouteBroker.RouteOrder
import RouteBroker.RouteConverge
import RouteBroker.RouteThreads
import RouteBroker.RouteWake
import RouteBroker.RouteSeq
import RouteBroker.RouteCreate
import RouteBroker.RouteCopy
import RouteBroker.DpSession
import RouteBroker.Bytes
import RouteBroker.Netlink
import RouteBroker.Stream
import RouteBroker.Fpm
import RouteBroker.Publish
import RouteBroker.Reader
import RouteBroker.Text
import RouteBroker.Topic
import RouteBroker.TopicKey
import RouteBroker.CanonicalKey
import RouteBroker.CString
import RouteBroker.DpDataInit
import RouteBroker.DpDataClient
import RouteBroker.DpCtrl
import RouteBroker.CircleqLinks
import RouteBroker.BrokerLinks
import RouteBroker.BrokerLinkRun
import RouteBroker.BrokerGlobals
import RouteBroker.DpDelivery
import RouteBroker.RouteDrain
import RouteBroker.Ownership
import RouteBroker.RouteData
import RouteBroker.RouteOwner
import RouteBroker.RouteClients
import RouteBroker.Daemon
import RouteBroker.Rib
import RouteBroker.Brokerd
import RouteBroker.Bpf
import RouteBroker.NlFilter
import RouteBroker.FpmRecords
import RouteBroker.KernelConverge
import RouteBroker.DpCtrlThread
