import Kopete.Oscar.StreamCuts
import Kopete.Oscar.TransferWire
import Kopete.Oscar.BufferSafety
import Kopete.Oscar.TLVList
import Kopete.Oscar.BufferScript
import Kopete.Oscar.ItemWire
import Kopete.Lib.BlockChain
import Kopete.QQ.Crypt
import Kopete.QQ.Packet
import Kopete.QQ.RoundTrip
import Kopete.QQ.DecryptBounds
import Kopete.QQ.GroupInfos
import Kopete.QQ.ContactDetail
import Kopete.Oscar.ContactManager
import Kopete.Oscar.ItemIds
import Kopete.Oscar.FreshIds
import Kopete.Oscar.GroupSync
import Kopete.Oscar.ContactMoves
import Kopete.Oscar.ItemUpdates
import Kopete.Lib.EndAround
import Kopete.Lib.CountedReader
import Kopete.Oscar.OftMetaTransfer
import Kopete.Oscar.OftReceive
import Kopete.Oscar.OftTransfer
import Kopete.Oscar.Rendezvous
import Kopete.Oscar.RateClass
import Kopete.Oscar.RateClassManager
import Kopete.Oscar.RateLevels
import Kopete.Oscar.OftChecksum
import Kopete.Oscar.OftProgress
import Kopete.Oscar.OftProtocol
import Kopete.Oscar.OftSegments
import Kopete.GroupWise.InputProtocol
import Kopete.GroupWise.EventProtocol
import Kopete.GroupWise.ResponseProtocol
import Kopete.GroupWise.CoreProtocol
import Kopete.GroupWise.ResponseStream
import Kopete.GroupWise.FieldForest
import Kopete.GroupWise.FieldsToWire
import Kopete.Lib.QList
import Kopete.Lib.FirstGreatest
import Kopete.GroupWise.PrivacyManager
import Kopete.GroupWise.UserDetailsManager
import Kopete.GroupWise.RequestDetails
import Kopete.Lib.Html
import Kopete.Gadu.ContactList
import Kopete.Gadu.ContactLines
import Kopete.Gadu.RichTextFormat
import Kopete.Libkopete.ContactList
import Kopete.Libkopete.MetaContactMerge
import Kopete.Libkopete.AddContact
import Kopete.Libkopete.Account
import Kopete.Libkopete.AccountManager
import Kopete.Libkopete.AccountOrder
import Kopete.Libkopete.NameSource
import Kopete.Libkopete.MetaContactGroups
import Kopete.Libkopete.RemoveAccount
import Kopete.Lib.Timers
import Kopete.Libkopete.Reconnect
import Kopete.Libkopete.MetaContactStatus
import Kopete.Libkopete.PreferredContact
import Kopete.Libkopete.MetaContactScans
import Kopete.Lib.QMap
import Kopete.Lib.Dom
import Kopete.Libkopete.XmlUpdate
import Kopete.Lib.LazyIds
import Kopete.Libkopete.XmlContactStorage
import Kopete.Libkopete.XmlGroupIds
import Kopete.Libkopete.XmlElements
import Kopete.Libkopete.XmlDocument
import Kopete.Libkopete.XmlLoading
import Kopete.Libkopete.XmlRoundTrip
import Kopete.Jabber.PrivacyManager
import Kopete.Jabber.PrivacyListEdits
import Kopete.Jabber.PrivacyListXml
import Kopete.Jabber.CapabilitiesManager
import Kopete.Jabber.CapabilityContacts
import Kopete.Jabber.CapabilityRequests
import Kopete.Libkopete.Password
import Kopete.Lib.Heap
import Kopete.Jabber.ResourcePool
import Kopete.Jabber.ResourceLookups
import Kopete.Jabber.ContactPool
import Kopete.Jabber.RosterSync
import Kopete.Libkopete.ChatSession
import Kopete.Libkopete.ChatMembers
import Kopete.Libkopete.IdentityManager
import Kopete.Libkopete.StatusManager
import Kopete.Lib.LinkedList
import Kopete.Libkopete.MessageHandlerChain
import Kopete.Lib.Replace
import Kopete.Lib.Swap
import Kopete.Libkopete.MessageEscape
import Kopete.Libkopete.PropertyContainer
import Kopete.Libkopete.OnlineStatusManager
import Kopete.Lib.Image
import Kopete.Lib.PlaceMarkers
import Kopete.Libkopete.BoundingBox
import Kopete.Libkopete.IconCache
import Kopete.Libkopete.CommandHandler
import Kopete.Lib.Pattern
import Kopete.Libkopete.CommandArguments
import Kopete.Libkopete.WalletManager
import Kopete.Libkopete.StatusItems
import Kopete.Libkopete.IdleTimer
import Kopete.GroupWise.ChatSession
import Kopete.GroupWise.Conference
import Kopete.GroupWise.Invitees
import Kopete.Bonjour.ContactConnection
import Kopete.Bonjour.Stanzas
import Kopete.Bonjour.Segments
import Kopete.Libkopete.Message
import Kopete.Bonjour.TextBound
import Kopete.Bonjour.SendMessage
import Kopete.Oscar.MoveLists
import Kopete.Oscar.WholeTLVs
import Kopete.Oscar.Blocks
import Kopete.Oscar.OftRoundTrip
import Kopete.Oscar.UpdateTLVs
import Kopete.Oscar.MessageText
import Kopete.Oscar.ConnectionHandler
import Kopete.Oscar.RateInfoTask
import Kopete.Lib.ListEdits
import Kopete.GroupWise.SetPrivacy
import Kopete.History.LogFiles
import Kopete.History.HistoryLogger
import Kopete.History.MonthDocuments
import Kopete.History.SaveScheduling
import Kopete.History.ReadMessages
import Kopete.History.MessagesLeft
import Kopete.Lib.Emission
import Kopete.History.ReadPages
import Kopete.History.Separation
import Kopete.Libkopete.GroupSignals
import Kopete.UI.TreeItems
import Kopete.UI.TreeGroups
import Kopete.UI.ContactListTreeModel
import Kopete.UI.ContactListWindow
import Kopete.Lib.Intervals
import Kopete.Statistics.MainStatus
import Kopete.ChatWindow.NameColors
import Kopete.Plugins.TextEffect
import Kopete.Plugins.AutoReplace
import Kopete.Plugins.NowListening
import Kopete.ChatWindow.StyleKeywords
import Kopete.UI.ContactListProxyModel
import Kopete.UI.ContactListPlainModel
import Kopete.UI.TreeOrder
import Kopete.UI.GroupOrder
import Kopete.UI.ContactListDrop
import Kopete.UI.ModelSettings
import Kopete.UI.TreeSettings
import Kopete.UI.TreeRestored
import Kopete.History.History2Logger
import Kopete.Jabber.StreamManagement
import Kopete.Jabber.StreamResumption
import Kopete.Lib.Countdown
import Kopete.Jabber.SecureStream
